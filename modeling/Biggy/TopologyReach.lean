import Biggy.Topology
import Biggy.Reach

/-!
# What the dependency map leaves out

The map is a breadth-first search whose nodes are limited, and which asks each relation for one page of children
only. `truncated` tells of the nodes that did not fit, not of the children behind the page.
-/
namespace Biggy
namespace Topology

open Companies RowScope Access Relations Search

section Statement

variable (G : Graph) (user : User) (direction : Direction) (depth maxNodes : ℕ) (root : Item)

/-- The rows of one child relation, on the first page or all of them. -/
def childRows (child : MetaTable) (fkCol : String) (pk : Value) (perPage : Option ℕ) : List Row :=
  (listRecords G.session.accounts G.session.companies child (ctx user) G.sql (G.stored child).data false
    [.one ⟨fkCol,.compare .eq pk,false⟩] ⟨G.arrange child,G.perm child,1,perPage⟩).1

/-- The node id of a child. -/
def childId (child : MetaTable) (row : Row) : NodeId := G.nodeId (child.id,row child.pkCol)

/-- The neighbour rule of the search, without the limits. -/
def rule : Search.Problem Item Link NodeId (List Edge) :=
  { problem G user direction depth maxNodes with next := neighbours G user direction none }

/-- What the map says of itself. -/
structure IsSearch (R : Result) : Prop where
  ids : (R.nodes.map Node.id).Nodup
  few : R.nodes.length ≤ maxNodes
  joined : ∀ e ∈ R.edges, e.source ∈ R.nodes.map Node.id ∧ e.target ∈ R.nodes.map Node.id
  once : (R.edges.map fun e => (e.source,e.target,e.kind)).Nodup
  reach : R.truncated = false → ∀ id d, (∃ n ∈ R.nodes, n.id = id ∧ n.depth = d) ↔
    Distance (rule G user direction depth maxNodes) root id d ∧ d ≤ depth

/-- A record that the search expands has more children in one relation than the limit, and the first page of them
holds every record that the search comes to. -/
def PageHides : Prop := direction ≠ .upstream ∧ ∃ n x t child fkCol rel, n < depth ∧
  Walk (problem G user direction depth maxNodes) root n x ∧ G.table x.1 = some t ∧ (child,fkCol,rel) ∈ G.incomingM1 t ∧
    canView G.session user child = true ∧ maxNodes < (childRows G user child fkCol x.2 none).length ∧
      ∀ m y, m ≤ depth → Walk (problem G user direction depth maxNodes) root m y →
        ∃ row ∈ childRows G user child fkCol x.2 (some maxNodes), G.nodeId y = childId G child row

/-- The user may see the company of every neighbour that the search comes to. -/
def AllAdmitted : Prop := ∀ n x, n < depth → Walk (problem G user direction depth maxNodes) root n x →
  ∀ l ∈ neighbours G user direction (some maxNodes) x, allows G user l.item = true

end Statement

section Children

variable {G : Graph} {user : User} {child : MetaTable} {fkCol : String} {pk : Value}

theorem childRows_page (n : ℕ) : childRows G user child fkCol pk (some n) = (childRows G user child fkCol pk none).take n := by
  have hfirst : ((max 1 (1:ℤ)).toNat-1)*n = 0 := by simp
  simp only [childRows,listRecords,listRows,Paging.page]
  rw [hfirst,List.drop_zero]

theorem childRows_mem {perPage : Option ℕ} {row : Row} (h : row ∈ childRows G user child fkCol pk perPage) :
    row ∈ (G.stored child).data.rows ∧ applyFilters G.sql (G.stored child).data.columns
      (scopeFilters G.session.accounts G.session.companies child (ctx user) false) row = true := listed_mem h

theorem childRows_length : (childRows G user child fkCol pk none).length ≤ (G.stored child).data.rows.length := by
  simp only [childRows,listRecords,listRows]
  rw [(G.perm child _).length_eq]
  exact List.length_filter_le _ _

/-- Children have ids of their own. -/
theorem childRows_nodup (hchild : child ∈ G.tables) : ((childRows G user child fkCol pk none).map (childId G child)).Nodup := by
  have hkeys : ((childRows G user child fkCol pk none).map fun row => row child.pkCol).Nodup := by
    have hperm := (G.perm child ((G.stored child).data.rows.filter (applyFilters G.sql (G.stored child).data.columns
      ([.one ⟨fkCol,.compare .eq pk,false⟩] ++
        scopeFilters G.session.accounts G.session.companies child (ctx user) false)))).map fun row => row child.pkCol
    refine hperm.nodup_iff.mpr ?_
    have hall : ((G.stored child).data.rows.map fun row => row child.pkCol).Nodup := by
      have hkeyed := (G.stored child).keys
      rw [← G.keyed child hchild]
      exact hkeyed
    exact hall.sublist (List.filter_sublist.map _)
  refine List.Nodup.of_map (fun id => (G.stored child).data.key (.text id.2)) ?_
  rw [List.map_map]
  refine (List.map_congr_left fun row hrow => ?_).symm ▸ hkeys
  exact G.spelled child hchild row (childRows_mem hrow).1

/-- Where one child is of a company that the user may see, the table has the company column and all its listed rows are. -/
theorem child_admitted (hchild : G.table child.id = some child) {row other : Row} {perPage perPage' : Option ℕ}
    (hrow : row ∈ childRows G user child fkCol pk perPage) (hallowed : allows G user (child.id,row child.pkCol) = true)
    (hother : other ∈ childRows G user child fkCol pk perPage') : allows G user (child.id,other child.pkCol) = true := by
  obtain ⟨hmem,-⟩ := childRows_mem hrow
  obtain ⟨hmem',hpass⟩ := childRows_mem hother
  have ht := (Schema.table_mem hchild).1
  have hvisible : ∀ r ∈ (G.stored child).data.rows, allows G user (child.id,r child.pkCol) =
      companyOk G.session.accounts G.session.companies (ctx user) child r := by
    intro r hr
    simp only [allows,hchild,Option.any_some,companyVisible_eq,(getRow_of_mem ht hr).1,companyOk]
  rw [hvisible row hmem] at hallowed
  rw [hvisible other hmem']
  rw [applyFilters_eq hmem'] at hpass
  rcases Bool.or_eq_true _ _ |>.mp (Bool.and_eq_true_iff.mp hpass).2 with hdropped | hok
  · obtain ⟨scope,hscope,hmissing⟩ := (Option.any_eq_true _ _).mp hdropped
    have hcolumn : scope.1 ∉ (G.stored child).data.columns := by simpa using hmissing
    simp only [companyOk,hscope,Option.all_some,(G.stored child).absent row hmem _ hcolumn,inCompanies] at hallowed
    cases hallowed
  · exact hok

end Children

section Links

variable {G : Graph} {user : User} {direction : Direction} {x : Item} {l : Link}

theorem mem_children_iff {t : MetaTable} {pk : Value} {perPage : Option ℕ} : l ∈ children G user t pk perPage ↔
    ∃ child fkCol rel, (child,fkCol,rel) ∈ G.incomingM1 t ∧ canView G.session user child = true ∧
      ∃ row ∈ childRows G user child fkCol pk perPage,
        l = ⟨(child.id,row child.pkCol),if rel.name = "" then fkCol else rel.name,.m1,true⟩ := by
  constructor
  · intro h
    obtain ⟨⟨child,fkCol,rel⟩,hrel,hl⟩ := List.mem_flatMap.mp h
    dsimp only at hl
    split at hl
    · rename_i hview
      obtain ⟨row,hrow,rfl⟩ := List.mem_map.mp hl
      exact ⟨child,fkCol,rel,hrel,hview,row,hrow,rfl⟩
    · cases hl
  · rintro ⟨child,fkCol,rel,hrel,hview,row,hrow,rfl⟩
    refine List.mem_flatMap.mpr ⟨(child,fkCol,rel),hrel,?_⟩
    dsimp only
    rw [if_pos hview]
    exact List.mem_map_of_mem hrow

/-- A link to a child. -/
theorem child_neighbour (hdirection : direction ≠ .upstream) {t : MetaTable} (ht : G.table x.1 = some t) {perPage : Option ℕ}
    (h : l ∈ children G user t x.2 perPage) : l ∈ neighbours G user direction perPage x := by
  simp only [neighbours,ht]
  rw [if_pos hdirection]
  exact List.mem_append_left _ (List.mem_append_left _ h)

/-- Only links to children are left out on a page. -/
theorem neighbours_page (n : ℕ) (h : l ∈ neighbours G user direction none x) : l ∈ neighbours G user direction (some n) x ∨
    direction ≠ .upstream ∧ ∃ t, G.table x.1 = some t ∧ l ∈ children G user t x.2 none := by
  simp only [neighbours] at h
  split at h
  · cases h
  · rename_i t ht
    simp only [neighbours,ht]
    rcases List.mem_append.mp h with h | h
    · rcases List.mem_append.mp h with h | h
      · split at h
        · rename_i hdirection
          exact Or.inr ⟨hdirection,t,rfl,h⟩
        · cases h
      · exact Or.inl (List.mem_append_left _ (List.mem_append_right _ h))
    · exact Or.inl (List.mem_append_right _ h)

theorem page_neighbours {n : ℕ} (h : l ∈ neighbours G user direction (some n) x) : l ∈ neighbours G user direction none x := by
  simp only [neighbours] at h
  split at h
  · cases h
  · rename_i t ht
    simp only [neighbours,ht]
    rcases List.mem_append.mp h with h | h
    · rcases List.mem_append.mp h with h | h
      · split at h
        · rename_i hdirection
          rw [if_pos hdirection]
          exact List.mem_append_left _ (List.mem_append_left _ (children_page h))
        · cases h
      · exact List.mem_append_left _ (List.mem_append_right _ h)
    · exact List.mem_append_right _ h

end Links

section Search

variable {G : Graph} {user : User} {direction : Direction} {depth maxNodes : ℕ} {root : Item}

/-- What the search comes to, the neighbour rule reaches. -/
theorem Walk.ruled {n : ℕ} {x : Item} (h : Walk (problem G user direction depth maxNodes) root n x) :
    Walk (rule G user direction depth maxNodes) root n x := by
  induction h with
  | root h => exact .root h
  | step _ hb hallowed ih => exact .step ih (page_neighbours hb) hallowed

theorem child_table {t child : MetaTable} {fkCol : String} {rel : MetaRelation} (h : (child,fkCol,rel) ∈ G.incomingM1 t) :
    G.table child.id = some child := by
  obtain ⟨-,-,-,hfrom,-⟩ := Schema.mem_incomingM1 h
  rw [(Schema.table_mem hfrom).2]
  exact hfrom

/-- Where no page hides children, a map that is not truncated comes to all that the rule reaches. -/
theorem walk_of_rule (hfree : ¬PageHides G user direction depth maxNodes root)
    (hdecides : KeyDecides (problem G user direction depth maxNodes))
    (hfull : (run (problem G user direction depth maxNodes) root []).full = false) {m : ℕ} {x : Item}
    (h : Walk (rule G user direction depth maxNodes) root m x) (hm : m ≤ depth) :
    Walk (problem G user direction depth maxNodes) root m x := by
  induction h with
  | root h => exact .root h
  | @step n x b _ hb hallowed ih =>
    have hx := ih (Nat.le_of_succ_le hm)
    rcases neighbours_page maxNodes hb with hpage | ⟨hdirection,t,ht,hchild⟩
    · exact .step hx hpage hallowed
    · obtain ⟨child,fkCol,rel,hrel,hview,row,hrow,rfl⟩ := mem_children_iff.mp hchild
      have htable := child_table hrel
      have hlink : ∀ other ∈ childRows G user child fkCol x.2 (some maxNodes),
          Walk (problem G user direction depth maxNodes) root (n+1) (child.id,other child.pkCol) := by
        intro other hother
        exact .step hx (child_neighbour hdirection ht (mem_children_iff.mpr ⟨child,fkCol,rel,hrel,hview,other,hother,rfl⟩))
          (child_admitted htable hrow hallowed hother)
      by_cases hpage : row ∈ childRows G user child fkCol x.2 (some maxNodes)
      · exact hlink row hpage
      · have hmore : maxNodes < (childRows G user child fkCol x.2 none).length := by
          by_contra hle
          rw [childRows_page,List.take_of_length_le (Nat.not_lt.mp hle)] at hpage
          exact hpage hrow
        refine absurd ⟨hdirection,n,x,t,child,fkCol,rel,hm,hx,ht,hrel,hview,hmore,fun k y hk hy => ?_⟩ hfree
        by_contra hoff
        have hnodup : (G.nodeId y::(childRows G user child fkCol x.2 (some maxNodes)).map (childId G child)).Nodup := by
          refine List.nodup_cons.mpr ⟨fun hmem => ?_,?_⟩
          · obtain ⟨other,hother,hid⟩ := List.mem_map.mp hmem
            exact hoff ⟨other,hother,hid.symm⟩
          · rw [childRows_page]
            exact (childRows_nodup (Schema.table_mem htable).1).sublist ((List.take_sublist _ _).map _)
        have hfound : G.nodeId y::(childRows G user child fkCol x.2 (some maxNodes)).map (childId G child) ⊆
            keys (problem G user direction depth maxNodes) (run (problem G user direction depth maxNodes) root []) := by
          intro id hid
          rcases List.mem_cons.mp hid with rfl | hid
          · obtain ⟨p,hp,hkey,-⟩ := run_complete hdecides hfull hy hk
            exact List.mem_map.mpr ⟨p,hp,hkey⟩
          · obtain ⟨other,hother,rfl⟩ := List.mem_map.mp hid
            obtain ⟨p,hp,hkey,-⟩ := run_complete hdecides hfull (hlink other hother) hm
            exact List.mem_map.mpr ⟨p,hp,hkey⟩
        have hlength := (List.subperm_of_subset hnodup hfound).length_le
        rw [List.length_cons,List.length_map,childRows_page,List.length_take,Nat.min_eq_left (Nat.le_of_lt hmore),keys,
          List.length_map] at hlength
        exact absurd (run_found (P := problem G user direction depth maxNodes) root []).2 (Nat.not_le.mpr hlength)

theorem distance_iff (hfree : ¬PageHides G user direction depth maxNodes root)
    (hdecides : KeyDecides (problem G user direction depth maxNodes))
    (hfull : (run (problem G user direction depth maxNodes) root []).full = false) (id : NodeId) (d : ℕ) :
    Distance (problem G user direction depth maxNodes) root id d ∧ d ≤ depth ↔
      Distance (rule G user direction depth maxNodes) root id d ∧ d ≤ depth := by
  have hreached : ∀ m, m ≤ depth → (Reached (problem G user direction depth maxNodes) root m id ↔
      Reached (rule G user direction depth maxNodes) root m id) := fun m hm =>
    ⟨fun ⟨x,hx,hid⟩ => ⟨x,Walk.ruled hx,hid⟩,fun ⟨x,hx,hid⟩ => ⟨x,walk_of_rule hfree hdecides hfull hx hm,hid⟩⟩
  refine and_congr_left fun hd => and_congr (hreached d hd) (forall_congr' fun m => imp_congr_right fun hm => ?_)
  exact not_congr (hreached m (Nat.le_of_lt (Nat.lt_of_lt_of_le hm hd)))

/-! ### The edges -/

/-- The edges join keys of the list, and none is there twice. -/
def GoodEdges (ids : List NodeId) (edges : List Edge) : Prop :=
  (∀ e ∈ edges, e.source ∈ ids ∧ e.target ∈ ids) ∧ (edges.map fun e => (e.source,e.target,e.kind)).Nodup

theorem good_addEdge {ids : List NodeId} {source target : Option NodeId} {label : String} {kind : RelationKind} {directed : Bool}
    {edges : List Edge} (h : GoodEdges ids edges) (hsource : ∀ a, source = some a → a ∈ ids) (htarget : ∀ b, target = some b → b ∈ ids) :
    GoodEdges ids (addEdge source target label kind directed edges) := by
  simp only [addEdge]
  split
  · rename_i a b
    split
    · exact h
    · rename_i hnew
      obtain ⟨-,hnew⟩ := not_or.mp hnew
      refine ⟨fun e he => ?_,?_⟩
      · rcases List.mem_append.mp he with he | he
        · exact h.1 e he
        · rw [List.mem_singleton.mp he]
          exact ⟨hsource a rfl,htarget b rfl⟩
      · rw [List.map_append,List.map_singleton]
        refine List.nodup_append.mpr ⟨h.2,List.nodup_singleton _,fun k hk k' hk' heq => hnew ?_⟩
        obtain ⟨e,he,rfl⟩ := List.mem_map.mp hk
        rw [List.mem_singleton.mp hk'] at heq
        obtain ⟨hs,htk⟩ := Prod.mk.inj heq
        obtain ⟨ht,hk⟩ := Prod.mk.inj htk
        exact List.any_eq_true.mpr ⟨e,he,by simp [hs,ht,hk]⟩
  · exact h

theorem good_edges : GoodEdges (keys (problem G user direction depth maxNodes) (run (problem G user direction depth maxNodes) root []))
    (run (problem G user direction depth maxNodes) root []).notes := by
  have hnone : ∀ ids, GoodEdges ids [] := fun ids => ⟨List.forall_mem_nil _,List.nodup_nil⟩
  refine run_notes (P := problem G user direction depth maxNodes) (fun ids more edges h => ?_)
    (fun ids cur found l edges h hcur hfound => ?_) root hnone
  · exact ⟨fun e he => ⟨List.mem_append_left _ (h.1 e he).1,List.mem_append_left _ (h.1 e he).2⟩,h.2⟩
  · have hself : ∀ a, some cur = some a → a ∈ ids := fun a ha => Option.some.inj ha ▸ hcur
    simp only [problem,noteLink]
    split
    · exact good_addEdge h hfound hself
    · exact good_addEdge h hself hfound

/-- A child behind the page has an id that is not on the page. -/
theorem behind_page {child : MetaTable} {fkCol : String} {pk : Value} (hchild : child ∈ G.tables)
    (hmore : maxNodes < (childRows G user child fkCol pk none).length) : ∃ row ∈ childRows G user child fkCol pk none,
      ∀ other ∈ childRows G user child fkCol pk (some maxNodes), childId G child row ≠ childId G child other := by
  have hnodup := @childRows_nodup G user child fkCol pk hchild
  rw [← List.take_append_drop maxNodes (childRows G user child fkCol pk none),List.map_append] at hnodup
  obtain ⟨row,rest,hdrop⟩ := List.exists_cons_of_ne_nil (List.drop_eq_nil_iff.not.mpr (Nat.not_le.mpr hmore))
  have hrow : row ∈ (childRows G user child fkCol pk none).drop maxNodes := hdrop ▸ List.mem_cons_self
  refine ⟨row,List.mem_of_mem_drop hrow,fun other hother heq => ?_⟩
  rw [childRows_page] at hother
  exact (List.nodup_append.mp hnodup).2.2 _ (List.mem_map_of_mem hother) _ (List.mem_map_of_mem hrow) heq.symm

/-- A map whose page hides children says that nothing is left out. -/
theorem hidden_full (hadmitted : AllAdmitted G user direction depth maxNodes root)
    (hhides : PageHides G user direction depth maxNodes root) :
    (run (problem G user direction depth maxNodes) root []).full = false := by
  obtain ⟨-,n,x,t,child,fkCol,rel,-,hx,-,-,-,hmore,hall⟩ := hhides
  have hroom : ((childRows G user child fkCol x.2 (some maxNodes)).map (childId G child)).length ≤ maxNodes := by
    rw [List.length_map,childRows_page,List.length_take]
    exact Nat.min_le_left _ _
  refine run_room hroom hx.from_root (fun m y hm hy => ?_) hadmitted []
  · obtain ⟨row,hrow,hid⟩ := hall m y hm hy
    exact List.mem_map.mpr ⟨row,hrow,hid.symm⟩

theorem hidden_incorrect (hadmitted : AllAdmitted G user direction depth maxNodes root)
    (hhides : PageHides G user direction depth maxNodes root) : ∃ id d, Distance (rule G user direction depth maxNodes) root id d ∧
      d ≤ depth ∧ ∀ p ∈ (run (problem G user direction depth maxNodes) root []).found, G.nodeId p.1 ≠ id := by
  obtain ⟨hdirection,n,x,t,child,fkCol,rel,hn,hx,ht,hrel,hview,hmore,hall⟩ := hhides
  have htable := child_table hrel
  obtain ⟨row,hrow,hbehind⟩ := behind_page (Schema.table_mem htable).1 hmore
  have hallowed : allows G user (child.id,row child.pkCol) = true := by
    obtain ⟨first,hfirst,-⟩ := hall 0 root (Nat.zero_le _) (.root hx.from_root)
    have hlink := child_neighbour hdirection ht (mem_children_iff.mpr ⟨child,fkCol,rel,hrel,hview,first,hfirst,rfl⟩)
    exact child_admitted htable hfirst (hadmitted n x hn hx _ hlink) hrow
  have hlink := child_neighbour hdirection ht (mem_children_iff.mpr ⟨child,fkCol,rel,hrel,hview,row,hrow,rfl⟩)
  have hwalk : Walk (rule G user direction depth maxNodes) root (n+1) (child.id,row child.pkCol) :=
    .step (Walk.ruled hx) hlink hallowed
  obtain ⟨d,hd,hdistance⟩ := Reached.distance ⟨_,hwalk,rfl⟩
  refine ⟨_,d,hdistance,Nat.le_trans hd hn,fun p hp hid => ?_⟩
  obtain ⟨hpwalk,hpdepth⟩ := run_walks (P := problem G user direction depth maxNodes) [] p hp
  obtain ⟨other,hother,hother'⟩ := hall p.2 p.1 hpdepth hpwalk
  exact hbehind other hother (hid.symm.trans hother')

end Search

/-- The map is what it says of itself where no page hides children, and only there when all neighbours are of companies
that the user may see. -/
theorem isSearch_iff (G : Graph) (user : User) (root : Item) (direction : String) (depth maxNodes : ℕ)
    (hdecides : KeyDecides (problem G user (Direction.parse direction) depth maxNodes)) :
    (¬PageHides G user (Direction.parse direction) depth maxNodes root →
        IsSearch G user (Direction.parse direction) depth maxNodes root (graphFor G user root direction depth maxNodes)) ∧
      (AllAdmitted G user (Direction.parse direction) depth maxNodes root →
        (IsSearch G user (Direction.parse direction) depth maxNodes root (graphFor G user root direction depth maxNodes) ↔
          ¬PageHides G user (Direction.parse direction) depth maxNodes root)) := by
  have hids : (graphFor G user root direction depth maxNodes).nodes.map Node.id =
      keys (problem G user (Direction.parse direction) depth maxNodes)
        (run (problem G user (Direction.parse direction) depth maxNodes) root []) := by
    simp only [graphFor,List.map_map]
    rfl
  have hnode : ∀ id d, (∃ n ∈ (graphFor G user root direction depth maxNodes).nodes, n.id = id ∧ n.depth = d) ↔
      ∃ p ∈ (run (problem G user (Direction.parse direction) depth maxNodes) root []).found, G.nodeId p.1 = id ∧ p.2 = d := by
    intro id d
    constructor
    · rintro ⟨n,hn,hid,hd⟩
      obtain ⟨p,hp,rfl⟩ := List.mem_map.mp hn
      exact ⟨p,hp,hid,hd⟩
    · rintro ⟨p,hp,hid,hd⟩
      exact ⟨node G p,List.mem_map_of_mem hp,hid,hd⟩
  have hgood := run_found (P := problem G user (Direction.parse direction) depth maxNodes) root []
  have hedges := @good_edges G user (Direction.parse direction) depth maxNodes root
  have hsearch : ¬PageHides G user (Direction.parse direction) depth maxNodes root →
      IsSearch G user (Direction.parse direction) depth maxNodes root (graphFor G user root direction depth maxNodes) := by
    intro hfree
    refine ⟨hids ▸ hgood.1,?_,hids ▸ hedges.1,hedges.2,fun hfull id d => ?_⟩
    · have hmap : ((graphFor G user root direction depth maxNodes).nodes.map Node.id).length =
          (graphFor G user root direction depth maxNodes).nodes.length := List.length_map _
      rw [← hmap,hids,keys,List.length_map]
      exact hgood.2
    · rw [hnode,← distance_iff hfree hdecides hfull]
      exact run_reach hdecides hfull id d
  refine ⟨hsearch,fun hadmitted => ⟨fun h hhides => ?_,hsearch⟩⟩
  obtain ⟨id,d,hdistance,hd,hmissing⟩ := hidden_incorrect hadmitted hhides
  obtain ⟨p,hp,hid,-⟩ := (hnode id d).mp ((h.reach (hidden_full hadmitted hhides) id d).mpr ⟨hdistance,hd⟩)
  exact hmissing p hp hid

/-! ### Parts that hang below the first one -/

def parentField : MetaField where
  id := 1
  physName := "parent"
  label := "Parent"
  dataType := .relation
  relatedTableId := some 1

def parts : MetaTable where
  id := 1
  physName := "parts"
  label := "Parts"
  fields := [parentField]
  idsNodup := by decide
  namesNodup := by decide
  namesFree := by decide

/-- A part below part 1; part 1 is below itself. -/
def part (n : ℤ) : Row := Row.write (fun _ => .null) [("id",.int n),("parent",.int 1)]

def partKey (v : Value) : Value :=
  if v = .text "1" then .int 1 else if v = .text "2" then .int 2 else if v = .text "3" then .int 3 else v

def partRows (mt : MetaTable) (h : mt.rowOwned = false ∧ ∀ f ∈ mt.fields, f.dataType ≠ .company) : Stored mt where
  data := ⟨["id","parent"],"id",[part 1,part 2,part 3],partKey,fun _ => true⟩
  owners howned := by rw [h.1] at howned; cases howned
  companies f hf htype := absurd htype (h.2 f hf)
  absent row hrow other hother := by
    simp only [List.mem_cons,List.not_mem_nil,or_false,not_or] at hrow hother
    have hid : (other == "id") = false := by simpa using hother.1
    have hparent : (other == "parent") = false := by simpa using hother.2
    rcases hrow with rfl | rfl | rfl <;> simp only [part,Row.write,List.lookup_cons,hid,hparent,List.lookup_nil,Option.getD_none]
  keys := by decide
  own row hrow := by
    simp only [List.mem_cons,List.not_mem_nil,or_false] at hrow
    rcases hrow with rfl | rfl | rfl <;> rfl

/-- The text of a key; what is no key of a part is told from a blank only. -/
def partStr (v : Value) : String :=
  if v = .int 1 then "1" else if v = .int 2 then "2" else if v = .int 3 then "3" else if v.blank then "" else "?"

def partsGraph : Graph where
  session := ⟨[⟨1,1,.view,false⟩],[],[],[],[]⟩
  tables := [parts]
  relations := [⟨"Parent",.m1,1,1,some 1,none⟩]
  stored := fun mt =>
    if h : mt.rowOwned = false ∧ ∀ f ∈ mt.fields, f.dataType ≠ .company then partRows mt h else noRow mt
  junctions := fun _ => []
  sql := plainSql
  arrange := fun _ => id
  label := fun _ _ => none
  str := partStr
  perm := fun _ => List.Perm.refl
  keyed mt hmt := by
    obtain rfl := List.mem_singleton.mp hmt
    rfl
  spelled mt hmt row hrow := by
    obtain rfl := List.mem_singleton.mp hmt
    have hrow' : row ∈ [part 1,part 2,part 3] := hrow
    simp only [List.mem_cons,List.not_mem_nil,or_false] at hrow'
    rcases hrow' with rfl | rfl | rfl <;> rfl

def partsDesigner : User := { id := 7, role := "designer" }

theorem parts_childRows (v : Value) : childRows partsGraph partsDesigner parts "parent" v none =
    if v = .int 1 ∨ v.blank = true then [part 1,part 2,part 3] else [] := by
  have hrow : ∀ n : ℤ, applyFilters plainSql ["id","parent"] [.one ⟨"parent",.compare .eq v,false⟩] (part n) =
      decide (v = .int 1 ∨ v.blank = true) := by
    intro n
    have hparent : part n "parent" = .int 1 := rfl
    have hvalue : Op.eq.valueless = false := rfl
    cases hblank : v.blank with
    | true => simp [applyFilters,passesFilter,passes,clauseFor,hblank,hvalue]
    | false => simp [applyFilters,passesFilter,passes,clauseFor,hblank,buildClause,hparent,plainSql,eq_comm (a := Value.int 1)]
  have hlist : childRows partsGraph partsDesigner parts "parent" v none =
      [part 1,part 2,part 3].filter (applyFilters plainSql ["id","parent"] [.one ⟨"parent",.compare .eq v,false⟩]) := rfl
  rw [hlist]
  split
  · rename_i hv
    exact List.filter_eq_self.mpr fun row hr => by
      simp only [List.mem_cons,List.not_mem_nil,or_false] at hr
      rcases hr with rfl | rfl | rfl <;> rw [hrow,decide_eq_true hv]
  · rename_i hv
    refine List.filter_eq_nil_iff.mpr fun row hr => ?_
    simp only [List.mem_cons,List.not_mem_nil,or_false] at hr
    rcases hr with rfl | rfl | rfl <;> rw [hrow,decide_eq_true_iff] <;> exact hv

theorem partStr_decides {v w : Value} (h : partStr v = partStr w) : (v = .int 1 ∨ v.blank = true) ↔ (w = .int 1 ∨ w.blank = true) := by
  have hone : ∀ u, (u = .int 1 ∨ u.blank = true) ↔ partStr u ∈ ["1",""] := by
    intro u
    simp only [partStr]
    split_ifs with h1 h2 h3 h4
    · simp [h1]
    · simp [h2,Value.blank]
    · simp [h3,Value.blank]
    · simp [h4]
    · simp [h1,h4]
  rw [hone v,hone w,h]

theorem parts_decides (depth maxNodes : ℕ) : KeyDecides (problem partsGraph partsDesigner .downstream depth maxNodes) := by
  rintro ⟨i,v⟩ ⟨j,w⟩ hkey
  obtain ⟨rfl,hstr⟩ := Prod.mk.inj hkey
  refine ⟨rfl,?_⟩
  have hrows : ∀ perPage, childRows partsGraph partsDesigner parts "parent" v perPage =
      childRows partsGraph partsDesigner parts "parent" w perPage := by
    have hall : childRows partsGraph partsDesigner parts "parent" v none = childRows partsGraph partsDesigner parts "parent" w none := by
      rw [parts_childRows,parts_childRows]
      exact if_congr (partStr_decides hstr) rfl rfl
    intro perPage
    cases perPage with
    | none => exact hall
    | some n => rw [childRows_page,childRows_page,hall]
  have hchildren : ∀ u, children partsGraph partsDesigner parts u (some maxNodes) =
      (childRows partsGraph partsDesigner parts "parent" u (some maxNodes)).map fun row => ⟨(1,row "id"),"Parent",.m1,true⟩ := by
    intro u
    rw [← List.append_nil (List.map _ _)]
    rfl
  change neighbours partsGraph partsDesigner .downstream (some maxNodes) (i,v) =
    neighbours partsGraph partsDesigner .downstream (some maxNodes) (i,w)
  simp only [neighbours]
  cases htable : partsGraph.table i with
  | none => rfl
  | some t =>
    obtain rfl : t = parts := List.mem_singleton.mp (Schema.table_mem htable).1
    simp only [hchildren,hrows]
    rfl

/-- The map of part 1 with room for all parts. -/
theorem parts_all : IsSearch partsGraph partsDesigner .downstream 1 3 (1,.int 1) (graphFor partsGraph partsDesigner (1,.int 1) "downstream" 1 3) := by
  refine (isSearch_iff partsGraph partsDesigner (1,.int 1) "downstream" 1 3 (parts_decides 1 3)).1 ?_
  rintro ⟨-,n,x,t,child,fkCol,rel,-,-,-,hrel,-,hmore,-⟩
  obtain rfl : child = parts := List.mem_singleton.mp (Schema.table_mem (child_table hrel)).1
  exact absurd hmore (Nat.not_lt.mpr childRows_length)

/-- With room for two, the third part is left out, and the map does not say so. -/
theorem part_left_out : ¬∀ (G : Graph) (user : User) (root : Item) (direction : String) (depth maxNodes : ℕ),
    KeyDecides (problem G user (Direction.parse direction) depth maxNodes) →
      IsSearch G user (Direction.parse direction) depth maxNodes root (graphFor G user root direction depth maxNodes) := by
  intro h
  have hnodes : (graphFor partsGraph partsDesigner (1,.int 1) "downstream" 1 2).nodes =
      [⟨(1,"1"),"Parts","#1",0⟩,⟨(1,"2"),"Parts","#2",1⟩] := rfl
  have hreach := (h partsGraph partsDesigner (1,.int 1) "downstream" 1 2 (parts_decides 1 2)).reach rfl (1,"3") 1
  have hlink : (⟨(1,.int 3),"Parent",.m1,true⟩ : Link) ∈ neighbours partsGraph partsDesigner .downstream none (1,.int 1) :=
    child_neighbour (by decide) rfl (mem_children_iff.mpr ⟨parts,"parent",⟨"Parent",.m1,1,1,some 1,none⟩,List.mem_singleton_self _,rfl,
      part 3,by rw [parts_childRows]; simp,rfl⟩)
  have hdistance : Distance (rule partsGraph partsDesigner .downstream 1 2) (1,.int 1) (1,"3") 1 := by
    have hroot : Walk (rule partsGraph partsDesigner .downstream 1 2) (1,.int 1) 0 (1,.int 1) := .root rfl
    have hwalk : Walk (rule partsGraph partsDesigner .downstream 1 2) (1,.int 1) 1
        ((rule partsGraph partsDesigner .downstream 1 2).item ⟨(1,.int 3),"Parent",.m1,true⟩) := .step hroot hlink rfl
    refine ⟨⟨(1,.int 3),hwalk,rfl⟩,fun m hm hreached => ?_⟩
    obtain rfl : m = 0 := Nat.lt_one_iff.mp hm
    obtain ⟨x,hx,hid⟩ := hreached
    cases hx with
    | root _ => exact absurd hid (by decide)
  obtain ⟨n,hn,hid,-⟩ := hreach.mpr ⟨hdistance,Nat.le_refl 1⟩
  rw [hnodes] at hn
  simp only [List.mem_cons,List.not_mem_nil,or_false] at hn
  rcases hn with rfl | rfl <;> revert hid <;> decide

end Topology
end Biggy
