import Biggy.ApiWrites
import Biggy.Run

/-!
# Automatic numbers

`_next_autonumber` makes sure that the counter of a field has a row, adds one to it, reads it and commits. Several clients
do so at the same time; the row is locked from the first statement to the commit.
-/
namespace Biggy
namespace Sequences

open Run ApiWrites

/-! ### The text of a number -/

/-- The digits of a number, with zeros before them up to a width. -/
def zeroFilled (width n : ℕ) : String := String.ofList (List.replicate (width-(toString n).length) '0') ++ toString n

/-- `f"{n:04d}"`: the sign counts for the width. -/
def format04d : ℤ → String
  | .ofNat n => fourDigits n
  | .negSucc n => "-" ++ zeroFilled 3 (n+1)

theorem fourDigits_eq (n : ℕ) : fourDigits n = zeroFilled 4 n := rfl

theorem toList_zeroFilled (width n : ℕ) : (zeroFilled width n).toList =
    List.replicate (width-(toString n).length) '0' ++ Nat.toDigits 10 n := by
  rw [zeroFilled,String.toList_append,String.toList_ofList,Nat.toString_eq_ofList_toDigits,String.toList_ofList]

/-- The digits give the number back. -/
theorem ofDigitChars_zeroFilled (width n : ℕ) : Nat.ofDigitChars 10 (zeroFilled width n).toList 0 = n := by
  rw [toList_zeroFilled,Nat.ofDigitChars_append,Nat.ofDigitChars_replicate_zero,Nat.mul_zero]
  exact Nat.ofDigitChars_toDigits (by decide) (by decide)

theorem zeroFilled_inj {width m n : ℕ} (h : zeroFilled width m = zeroFilled width n) : m = n := by
  rw [← ofDigitChars_zeroFilled width m,h,ofDigitChars_zeroFilled]

theorem isDigit_of_mem {width n : ℕ} {c : Char} (h : c ∈ (zeroFilled width n).toList) : c.isDigit = true := by
  rw [toList_zeroFilled] at h
  rcases List.mem_append.mp h with h | h
  · rw [(List.mem_replicate.mp h).2]
    decide
  · exact Nat.isDigit_of_mem_toDigits (by decide) (by decide) h

theorem format04d_inj {m n : ℤ} (h : format04d m = format04d n) : m = n := by
  have hsign : ∀ k l : ℕ, fourDigits k ≠ "-" ++ zeroFilled 3 l := by
    intro k l heq
    have hmem : '-' ∈ (zeroFilled 4 k).toList := by
      rw [← fourDigits_eq,heq,String.toList_append]
      exact List.mem_append_left _ (by decide)
    exact absurd (isDigit_of_mem hmem) (by decide)
  cases m with
  | ofNat k =>
    cases n with
    | ofNat l => exact congrArg Int.ofNat (zeroFilled_inj h)
    | negSucc l => exact absurd h (hsign k (l+1))
  | negSucc k =>
    cases n with
    | ofNat l => exact absurd h.symm (hsign l (k+1))
    | negSucc l =>
      have heq : zeroFilled 3 (k+1) = zeroFilled 3 (l+1) := by
        have hlist := congrArg String.toList h
        simp only [format04d,String.toList_append] at hlist
        exact String.toList_inj.mp (List.append_cancel_left hlist)
      have := zeroFilled_inj heq
      congr 1
      omega

/-- `f"{field.default_value or ''}{n:04d}"`. -/
def formatted (defaultValue : Option String) (n : ℤ) : String := defaultValue.getD "" ++ format04d n

theorem formatted_inj {defaultValue : Option String} {m n : ℤ} (h : formatted defaultValue m = formatted defaultValue n) : m = n := by
  have hlist := congrArg String.toList h
  simp only [formatted,String.toList_append] at hlist
  exact format04d_inj (String.toList_inj.mp (List.append_cancel_left hlist))

/-! ### Clients -/

/-- How far a call has come, and the row of the counter as its transaction sees it. -/
inductive Call
  | idle
  | upserted (field : ℕ) (row : ℤ)
  | incremented (field : ℕ) (row : ℤ)
  | read (field : ℕ) (row n : ℤ)

/-- The committed counters, the locks on their rows and the calls of the clients. -/
structure State where
  next : ℕ → Option ℤ
  lock : ℕ → Option ℕ
  call : ℕ → Call

/-- Before the first call. -/
def start (next : ℕ → Option ℤ) : State := ⟨next,fun _ => none,fun _ => .idle⟩

inductive Step
  | upsert (client field : ℕ)
  | increment (client : ℕ)
  | read (client : ℕ)
  | commit (client : ℕ)
  | rollback (client : ℕ)

def State.setCall (s : State) (client : ℕ) (c : Call) : State := { s with call := Function.update s.call client c }

/-- The end of a transaction. -/
def State.release (s : State) (client field : ℕ) : State :=
  { s with lock := Function.update s.lock field none,call := Function.update s.call client .idle }

/-- The field whose row a call has locked. -/
def Call.field : Call → Option ℕ
  | .idle => none
  | .upserted f _ | .incremented f _ | .read f _ _ => some f

/-- A statement of `_next_autonumber`; one that has to wait, or is not the client's next, changes nothing. -/
def step (s : State) : Step → State
  | .upsert client field => match s.call client, s.lock field with
    | .idle, none => { s with lock := Function.update s.lock field (some client) }.setCall client
        (.upserted field ((s.next field).getD 1))
    | _, _ => s
  | .increment client => match s.call client with
    | .upserted field row => s.setCall client (.incremented field (row+1))
    | _ => s
  | .read client => match s.call client with
    | .incremented field row => s.setCall client (.read field row (row-1))
    | _ => s
  | .commit client => match s.call client with
    | .read field row _ => { s with next := Function.update s.next field (some row) }.release client field
    | _ => s
  | .rollback client => match (s.call client).field with
    | some field => s.release client field
    | none => s

/-- The field and the number that a commit hands out. -/
def allocated (s : State) : Step → List (ℕ × ℤ)
  | .commit client => match s.call client with
    | .read field _ n => [(field,n)]
    | _ => []
  | _ => []

/-- The numbers of one field, in the order of the commits. -/
def numbersOf (field : ℕ) (log : List (ℕ × ℤ)) : List ℤ := (log.filter fun p => decide (p.1 = field)).map Prod.snd

/-! ### What holds at every time -/

/-- The number that the next commit for the field hands out. -/
def State.counter (s : State) (field : ℕ) : ℤ := (s.next field).getD 1

/-- A call that has begun holds the lock and has seen the committed counter. -/
def Holds (s : State) (client : ℕ) : Prop :=
  match s.call client with
  | .idle => True
  | .upserted f row => s.lock f = some client ∧ row = s.counter f
  | .incremented f row => s.lock f = some client ∧ row = s.counter f+1
  | .read f row n => s.lock f = some client ∧ row = s.counter f+1 ∧ n = s.counter f

/-- The counter has moved on from the first number by what has been handed out, which are the numbers in between. -/
structure Counted (first : ℕ → ℤ) (s : State) (log : List (ℕ × ℤ)) : Prop where
  holds : ∀ client, Holds s client
  numbers : ∀ f, ∃ k : ℕ, s.counter f = first f+k ∧ numbersOf f log = (List.range k).map fun i : ℕ => first f+i

section Steps

variable {s : State} {client other field : ℕ} {c : Call}

@[simp] theorem setCall_next : (s.setCall client c).next = s.next := rfl
@[simp] theorem setCall_lock : (s.setCall client c).lock = s.lock := rfl
@[simp] theorem setCall_self : (s.setCall client c).call client = c := Function.update_self _ _ _
@[simp] theorem setCall_other (h : other ≠ client) : (s.setCall client c).call other = s.call other := Function.update_of_ne h _ _
@[simp] theorem setCall_counter (f : ℕ) : (s.setCall client c).counter f = s.counter f := rfl
@[simp] theorem release_self : (s.release client field).call client = .idle := Function.update_self _ _ _

theorem lock_of_holds {f : ℕ} (h : Holds s client) (hcall : (s.call client).field = some f) : s.lock f = some client := by
  rw [Holds] at h
  cases hc : s.call client with
  | idle => rw [hc] at hcall; cases hcall
  | upserted g row | incremented g row | read g row n =>
    rw [hc] at h hcall
    obtain rfl := Option.some.inj hcall
    exact h.1

/-- A call does not depend on what another one does with a row that it has not locked. -/
theorem holds_frame {s' : State} (hcall : s'.call other = s.call other)
    (hrest : ∀ f, s.lock f = some other → s'.lock f = some other ∧ s'.counter f = s.counter f) (h : Holds s other) :
    Holds s' other := by
  rw [Holds] at h ⊢
  rw [hcall]
  split at h
  · trivial
  · obtain ⟨hlock,hrow⟩ := h
    exact ⟨(hrest _ hlock).1,by rw [(hrest _ hlock).2]; exact hrow⟩
  · obtain ⟨hlock,hrow⟩ := h
    exact ⟨(hrest _ hlock).1,by rw [(hrest _ hlock).2]; exact hrow⟩
  · obtain ⟨hlock,hrow⟩ := h
    exact ⟨(hrest _ hlock).1,by rw [(hrest _ hlock).2]; exact hrow⟩

/-- A statement inside a call concerns that call only. -/
theorem holds_setCall (h : ∀ i, Holds s i) (hnew : Holds (s.setCall client c) client) : ∀ i, Holds (s.setCall client c) i := by
  intro i
  by_cases hi : i = client
  · rw [hi]
    exact hnew
  · exact holds_frame (setCall_other hi) (fun f hlock => ⟨hlock,rfl⟩) (h i)

/-- The end of a call concerns the row that it has locked only. -/
theorem holds_release {next : ℕ → Option ℤ} (h : ∀ i, Holds s i) (hlock : s.lock field = some client)
    (hnext : ∀ f, f ≠ field → next f = s.next f) : ∀ i, Holds ({ s with next := next }.release client field) i := by
  intro i
  by_cases hi : i = client
  · rw [hi,Holds,release_self]
    trivial
  · refine holds_frame (s := s) (Function.update_of_ne hi _ _) (fun f hf => ?_) (h i)
    have hne : f ≠ field := by
      rintro rfl
      rw [hlock] at hf
      exact hi (Option.some.inj hf).symm
    exact ⟨(Function.update_of_ne hne _ _).trans hf,by simp only [State.counter,State.release,hnext f hne]⟩

theorem numbersOf_append (log log' : List (ℕ × ℤ)) : numbersOf field (log++log') = numbersOf field log ++ numbersOf field log' := by
  rw [numbersOf,List.filter_append,List.map_append,numbersOf,numbersOf]

end Steps

theorem counted_step {first : ℕ → ℤ} {s : State} {log : List (ℕ × ℤ)} (i : Step) (h : Counted first s log) :
    Counted first (step s i) (log ++ allocated s i) := by
  obtain ⟨hholds,hnumbers⟩ := h
  cases i with
  | upsert client field =>
    rw [show allocated s (.upsert client field) = [] from rfl,List.append_nil]
    simp only [step]
    split
    · rename_i hidle hfree
      refine ⟨fun i => ?_,hnumbers⟩
      by_cases hi : i = client
      · rw [hi,Holds,setCall_self]
        exact ⟨Function.update_self _ _ _,rfl⟩
      · refine holds_frame (s := s) (setCall_other hi) (fun f hf => ⟨?_,rfl⟩) (hholds i)
        have hne : f ≠ field := by
          rintro rfl
          rw [hfree] at hf
          cases hf
        exact (Function.update_of_ne hne _ _).trans hf
    · exact ⟨hholds,hnumbers⟩
  | increment client =>
    rw [show allocated s (.increment client) = [] from rfl,List.append_nil]
    simp only [step]
    split
    · rename_i field row hcall
      have hclient := hholds client
      rw [Holds,hcall] at hclient
      refine ⟨holds_setCall hholds ?_,hnumbers⟩
      rw [Holds,setCall_self]
      exact ⟨hclient.1,congrArg (· + 1) hclient.2⟩
    · exact ⟨hholds,hnumbers⟩
  | read client =>
    rw [show allocated s (.read client) = [] from rfl,List.append_nil]
    simp only [step]
    split
    · rename_i field row hcall
      have hclient := hholds client
      rw [Holds,hcall] at hclient
      refine ⟨holds_setCall hholds ?_,hnumbers⟩
      rw [Holds,setCall_self]
      refine ⟨hclient.1,hclient.2,?_⟩
      rw [setCall_counter,hclient.2]
      omega
    · exact ⟨hholds,hnumbers⟩
  | commit client =>
    simp only [step,allocated]
    split
    · rename_i field row n hcall
      have hclient := hholds client
      rw [Holds,hcall] at hclient
      obtain ⟨hlock,hrow,hn⟩ := hclient
      refine ⟨holds_release hholds hlock fun f hf => Function.update_of_ne hf _ _,fun f => ?_⟩
      obtain ⟨k,hcounter,hlog⟩ := hnumbers f
      by_cases hf : f = field
      · subst hf
        refine ⟨k+1,?_,?_⟩
        · have hrow' : row = first f+k+1 := by rw [hrow,hcounter]
          simp only [State.counter,State.release,Function.update_self,Option.getD_some,hrow']
          push_cast
          omega
        · have hn' : n = first f+k := hn.trans hcounter
          have hlast : numbersOf f [(f,n)] = [n] := by simp [numbersOf]
          rw [numbersOf_append,hlog,List.range_succ,List.map_append,List.map_singleton,hlast,hn']
      · refine ⟨k,?_,?_⟩
        · have hsame : (Function.update s.next field (some row)) f = s.next f := Function.update_of_ne hf _ _
          simp only [State.counter,State.release,hsame]
          exact hcounter
        · have hnone : numbersOf f [(field,n)] = [] := by simp [numbersOf,Ne.symm hf]
          rw [numbersOf_append,hlog,hnone,List.append_nil]
    · rw [List.append_nil]
      exact ⟨hholds,hnumbers⟩
  | rollback client =>
    rw [show allocated s (.rollback client) = [] from rfl,List.append_nil]
    simp only [step]
    split
    · rename_i field hfield
      exact ⟨holds_release hholds (lock_of_holds (hholds client) hfield) fun _ _ => rfl,hnumbers⟩
    · exact ⟨hholds,hnumbers⟩

/-- In every run the numbers of a field are the counter's first number and those that follow it. -/
theorem numbers_eq (next : ℕ → Option ℤ) (steps : List Step) (field : ℕ) : ∃ k : ℕ,
    numbersOf field (emitted step allocated (start next) steps) = (List.range k).map fun i : ℕ => (next field).getD 1+i := by
  have hstart : Counted (fun f => (next f).getD 1) (start next) [] :=
    ⟨fun _ => trivial,fun f => ⟨0,by simp [State.counter,start],rfl⟩⟩
  have hrun : Counted (fun f => (next f).getD 1) (exec step (start next) steps)
      ([] ++ emitted step allocated (start next) steps) :=
    history_invariant (Counted fun f => (next f).getD 1) (fun _ _ i h _ => counted_step i h) hstart
      (meets_trivial (start next) steps)
  obtain ⟨k,-,hnumbers⟩ := hrun.numbers field
  exact ⟨k,hnumbers⟩

/-- From any counters and in any interleaving of the clients, the numbers of one field increase by one from commit to
commit, no two are the same, and no two make the same text. -/
theorem numbers_unique (next : ℕ → Option ℤ) (steps : List Step) (field : ℕ) (defaultValue : Option String) :
    let numbers := numbersOf field (emitted step allocated (start next) steps)
    numbers.IsChain (fun m n => n = m+1) ∧ numbers.Nodup ∧ (numbers.map (formatted defaultValue)).Nodup := by
  obtain ⟨k,hnumbers⟩ := numbers_eq next steps field
  intro numbers
  have hinj : ∀ i j : ℕ, (next field).getD 1+(i:ℤ) = (next field).getD 1+(j:ℤ) → i = j := fun i j h => by omega
  have hnodup : numbers.Nodup := by
    rw [show numbers = _ from hnumbers]
    exact List.nodup_range.map_on fun i _ j _ h => hinj i j h
  refine ⟨?_,hnodup,hnodup.map fun m n h => formatted_inj h⟩
  rw [show numbers = _ from hnumbers,List.isChain_map]
  exact (List.isChain_range _ _).mpr fun i _ => by push_cast; omega

end Sequences
end Biggy
