import Biggy.RowScope

/-!
# Rows that leave the system

The export of selected rows rebuilds the scope of the list, and the manual send of a feed has none. `outgoing_iff` says
when both let out only what the user could open.
-/
namespace Biggy
namespace Outgoing

open Companies RowScope RecordService

/-- A feed of the table; `connected` says that its connection exists and is active. -/
structure Feed where
  active : Bool := true
  allowManual : Bool := true
  connected : Bool := true

section Routes

variable (mt : MetaTable) (caller : Caller) (data : Physical)

/-- `_selected_ids`. -/
def selectedIds (ids : List Value) : List Value := ids.filter fun id => !id.blank

/-- A row is one of the submitted ids. -/
def selected (ids : List Value) (row : Row) : Bool := decide (data.keyOf row ∈ (selectedIds ids).map data.key)

/-- `data_service.rows_by_ids`. -/
def rowsByIds (ids : List Value) : List Row := data.rows.filter (selected data ids)

/-- `_visible` of the export. -/
def visible (row : Row) : Bool :=
  if mt.softDelete && row "deleted_at" ≠ .null then false
  else !(mt.rowOwned && !caller.isDesigner && row "created_by" ∉ [Value.null,userValue caller.userId])

/-- The rows that `bulk_export` writes. -/
def bulkExport (ids : List Value) : List Row := (rowsByIds data ids).filter (visible mt caller)

/-- `_manual_feeds`. -/
def manualFeeds (feeds : List Feed) : List Feed := feeds.filter fun f => f.active && f.allowManual

/-- The rows that `run_manual` pushes; without a connection they are skipped. -/
def runManual (pks : List Value) (feed : Feed) : List Row := if feed.connected then pks.filterMap data.getRow else []

/-- The rows that `feed_send` pushes. -/
def feedSend (feeds : List Feed) (ids : List Value) : List Row :=
  (manualFeeds feeds).flatMap (runManual data (selectedIds ids))

end Routes

section Scope

variable (accounts : List Account) (companies : List Company) {mt : MetaTable} (caller : Caller) (t : Stored mt)

/-- `get_record` shows the row to the user. -/
def Shown (row : Row) : Prop := ∃ pk, getRecord accounts companies mt caller t.data pk false = some row

/-- The selected rows have nothing to hide: none without an owner in an owned table, none of a foreign company, and
where a feed can be sent by hand, none at all that the user may not read. -/
structure Screened (feeds : List Feed) (ids : List Value) : Prop where
  blank : ∀ row ∈ t.data.rows, selected t.data ids row = true → live mt row = true → owned mt caller = true →
    row "created_by" = .null → caller.userId = none
  foreign : ∀ row ∈ t.data.rows, selected t.data ids row = true → live mt row = true → ownerOk mt caller row = true →
    companyOk accounts companies caller mt row = true
  sent : (∃ feed ∈ feeds, feed.active = true ∧ feed.allowManual = true ∧ feed.connected = true) →
    ∀ row ∈ t.data.rows, selected t.data ids row = true →
      rowReadable mt caller false (companyScope accounts companies mt caller) row = true

variable {accounts companies caller t}

theorem shown_iff {row : Row} (hrow : row ∈ t.data.rows) : Shown accounts companies caller t row ↔
    rowReadable mt caller false (companyScope accounts companies mt caller) row = true := by
  rw [Shown,getRecord_eq_some]
  exact and_iff_right hrow

theorem visible_iff (row : Row) : visible mt caller row = true ↔ live mt row = true ∧
    (owned mt caller = true → row "created_by" = .null ∨ row "created_by" = userValue caller.userId) := by
  simp only [visible,live,owned]
  cases mt.softDelete <;> cases mt.rowOwned <;> cases caller.isDesigner <;> by_cases hd : row "deleted_at" = .null <;>
    simp [hd]

theorem userValue_eq_null {userId : Option ℕ} : userValue userId = .null ↔ userId = none := by
  cases userId <;> simp [userValue]

/-- What a feed pushes by hand are the stored rows of the submitted ids. -/
theorem mem_feedSend {feeds : List Feed} {ids : List Value} {row : Row} : row ∈ feedSend t.data feeds ids ↔
    (∃ feed ∈ feeds, feed.active = true ∧ feed.allowManual = true ∧ feed.connected = true) ∧
      row ∈ t.data.rows ∧ selected t.data ids row = true := by
  have hselected : (∃ id ∈ selectedIds ids, t.data.getRow id = some row) ↔
      row ∈ t.data.rows ∧ selected t.data ids row = true := by
    constructor
    · rintro ⟨id,hid,hrow⟩
      have hkey : t.data.keyOf row = t.data.key id := Keyed.key_of_find hrow
      exact ⟨Keyed.mem_of_find hrow,decide_eq_true (hkey ▸ List.mem_map_of_mem hid)⟩
    · rintro ⟨hrow,hkey⟩
      obtain ⟨id,hid,hkey⟩ := List.mem_map.mp (of_decide_eq_true hkey)
      refine ⟨id,hid,?_⟩
      rw [Physical.getRow,hkey]
      exact Keyed.find_of_mem t.keys hrow
  rw [← hselected]
  simp only [feedSend,manualFeeds,List.mem_flatMap,List.mem_filter,Bool.and_eq_true,runManual]
  constructor
  · rintro ⟨feed,⟨hfeed,hactive,hmanual⟩,hpushed⟩
    cases hconnected : feed.connected with
    | false => simp [hconnected] at hpushed
    | true =>
      rw [if_pos hconnected] at hpushed
      exact ⟨⟨feed,hfeed,hactive,hmanual,hconnected⟩,List.mem_filterMap.mp hpushed⟩
  · rintro ⟨⟨feed,hfeed,hactive,hmanual,hconnected⟩,hpushed⟩
    refine ⟨feed,⟨hfeed,hactive,hmanual⟩,?_⟩
    rw [if_pos hconnected]
    exact List.mem_filterMap.mpr hpushed

theorem mem_bulkExport {ids : List Value} {row : Row} : row ∈ bulkExport mt caller t.data ids ↔
    row ∈ t.data.rows ∧ selected t.data ids row = true ∧ visible mt caller row = true := by
  simp only [bulkExport,rowsByIds,List.mem_filter,and_assoc]

/-- Every row that the export writes or the feeds push is one that the user could open, exactly when the selected rows
have nothing to hide. -/
theorem outgoing_iff (accounts : List Account) (companies : List Company) {mt : MetaTable} (caller : Caller)
    (t : Stored mt) (feeds : List Feed) (ids : List Value) :
    ((∀ row ∈ bulkExport mt caller t.data ids, Shown accounts companies caller t row) ∧
        ∀ row ∈ feedSend t.data feeds ids, Shown accounts companies caller t row) ↔
      Screened accounts companies caller t feeds ids := by
  constructor
  · rintro ⟨hexport,hsend⟩
    have hreadable : ∀ row ∈ t.data.rows, selected t.data ids row = true → visible mt caller row = true →
        ownerOk mt caller row = true ∧ companyOk accounts companies caller mt row = true := by
      intro row hrow hselected hvisible
      have hshown := (shown_iff hrow).mp (hexport row (mem_bulkExport.mpr ⟨hrow,hselected,hvisible⟩))
      rw [rowReadable_eq,Bool.and_eq_true,Bool.and_eq_true] at hshown
      exact ⟨hshown.1.2,hshown.2⟩
    refine ⟨fun row hrow hselected hlive howned hblank => ?_,fun row hrow hselected hlive howner => ?_,
      fun hfeed row hrow hselected => ?_⟩
    · have howner := (hreadable row hrow hselected ((visible_iff row).mpr ⟨hlive,fun _ => Or.inl hblank⟩)).1
      have huser : row "created_by" = userValue caller.userId := by simpa [ownerOk,howned] using howner
      exact userValue_eq_null.mp (huser.symm.trans hblank)
    · refine (hreadable row hrow hselected ((visible_iff row).mpr ⟨hlive,fun howned => Or.inr ?_⟩)).2
      simpa [ownerOk,howned] using howner
    · exact (shown_iff hrow).mp (hsend row (mem_feedSend.mpr ⟨hfeed,hrow,hselected⟩))
  · intro h
    constructor
    · intro row hwritten
      obtain ⟨hrow,hselected,hvisible⟩ := mem_bulkExport.mp hwritten
      obtain ⟨hlive,howners⟩ := (visible_iff row).mp hvisible
      have howner : ownerOk mt caller row = true := by
        cases howned : owned mt caller with
        | false => simp [ownerOk,howned]
        | true =>
          have huser : row "created_by" = userValue caller.userId := by
            rcases howners howned with hblank | huser
            · rw [hblank,h.blank row hrow hselected hlive howned hblank]
              rfl
            · exact huser
          simp [ownerOk,huser]
      rw [shown_iff hrow,rowReadable_eq,hlive,howner,h.foreign row hrow hselected hlive howner]
      rfl
    · intro row hpushed
      obtain ⟨hfeed,hrow,hselected⟩ := mem_feedSend.mp hpushed
      exact (shown_iff hrow).mpr (h.sent hfeed row hrow hselected)

end Scope

/-- The user 2 sends the note of the user 1 by hand. -/
theorem foreign_note_sent : ¬∀ (accounts : List Account) (companies : List Company) (mt : MetaTable) (caller : Caller)
    (t : Stored mt) (feeds : List Feed) (ids : List Value),
      (∀ row ∈ bulkExport mt caller t.data ids, Shown accounts companies caller t row) ∧
        ∀ row ∈ feedSend t.data feeds ids, Shown accounts companies caller t row := by
  intro h
  have hnote : note ∈ storedNotes.data.rows := List.mem_singleton_self note
  have hsent : note ∈ feedSend storedNotes.data [{}] [.int 1] := mem_feedSend.mpr ⟨⟨{},by simp⟩,hnote,by decide⟩
  have hshown := (shown_iff hnote).mp ((h [] [] notes ⟨some 2,false⟩ storedNotes [{}] [.int 1]).2 note hsent)
  revert hshown
  decide

end Outgoing
end Biggy
