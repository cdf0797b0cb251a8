import Biggy.SafeNext
import Mathlib.Data.List.SplitBy

/-!
# Query strings

`urlencode` writes the names and values of a query as a string, and `parse_qsl` reads them from one. What has been
written is read again, up to the values that are blank.
-/
namespace Biggy
namespace QueryString

open Redirect (hexToByte unquoteToBytes isAscii)

/-! ### Writing -/

/-- The bytes of a string in UTF-8. -/
def utf8 (s : String) : List UInt8 := s.toList.flatMap String.utf8EncodeChar

/-- The characters that stand for themselves. -/
def alwaysSafe : List Char := "ABCDEFGHIJKLMNOPQRSTUVWXYZabcdefghijklmnopqrstuvwxyz0123456789_.-~".toList

def hexDigits : List Char := "0123456789ABCDEF".toList

def hexDigit (n : ℕ) : Char := hexDigits.getD n '0'

/-- A byte in `quote_plus`. -/
def quoteByte (b : UInt8) : List Char :=
  if b = 32 then ['+']
  else if Char.ofNat b.toNat ∈ alwaysSafe then [Char.ofNat b.toNat]
  else ['%',hexDigit (b.toNat/16),hexDigit (b.toNat%16)]

/-- `quote_plus`. -/
def quotePlus (s : String) : List Char := (utf8 s).flatMap quoteByte

def quotePair (p : String × String) : List Char := quotePlus p.1++ '='::quotePlus p.2

/-- `urlencode`. -/
def urlencode (args : List (String × String)) : String := String.ofList (['&'].intercalate (args.map quotePair))

/-! ### Reading -/

def unplus (c : Char) : Char := if c = '+' then ' ' else c

section Reading

-- what is read of bytes that are not UTF-8
variable (lossy : List ℕ → String)

/-- `bytes.decode("utf-8", "replace")`. -/
def decode (bytes : List ℕ) : String :=
  match (bytes.map UInt8.ofNat).toByteArray.utf8Decode? with
  | some cs => String.ofList cs.toList
  | none => lossy bytes

/-- `unquote`: the parts of ASCII are decoded. -/
def unquote (cs : List Char) : String :=
  String.join ((cs.splitBy fun a b => isAscii a == isAscii b).map fun part =>
    if part.all isAscii then decode lossy (unquoteToBytes part) else String.ofList part)

/-- A name or a value in `parse_qsl`. -/
def unquotePlus (cs : List Char) : String := unquote lossy (cs.map unplus)

def readPair (part : List Char) : Option (String × String) :=
  let name := part.takeWhile fun c => c ≠ '='
  let value := (part.dropWhile fun c => c ≠ '=').drop 1
  if value = [] then none else some (unquotePlus lossy name,unquotePlus lossy value)

/-- `parse_qsl`, which leaves out blank values. -/
def parseQsl (qs : String) : List (String × String) := (qs.toList.splitOn '&').filterMap (readPair lossy)

end Reading

/-! ### What has been written is read again -/

theorem safe_plain {c : Char} (h : c ∈ alwaysSafe) : c ≠ '%' ∧ c ≠ '+' ∧ c ≠ '&' ∧ c ≠ '=' ∧ isAscii c = true := by
  have hall : (alwaysSafe.all fun c => decide (c ≠ '%' ∧ c ≠ '+' ∧ c ≠ '&' ∧ c ≠ '=' ∧ isAscii c = true)) = true := by decide
  exact of_decide_eq_true (List.all_eq_true.mp hall c h)

theorem hexDigit_plain (n : Fin 16) : hexDigit n ≠ '&' ∧ hexDigit n ≠ '=' ∧ isAscii (hexDigit n) = true := by
  revert n
  decide

theorem hexToByte_hexDigit (m n : Fin 16) : hexToByte (hexDigit m) (hexDigit n) = some (16*m.val+n.val) := by
  revert m n
  decide

theorem hexDigit_ne_plus (n : Fin 16) : hexDigit n ≠ '+' := by
  revert n
  decide

theorem quoteByte_plain (b : UInt8) : ∀ c ∈ quoteByte b, c ≠ '&' ∧ c ≠ '=' ∧ isAscii c = true := by
  have hb := b.toNat_lt
  unfold quoteByte
  split_ifs with hspace hsafe
  · exact List.forall_mem_singleton.mpr (by decide)
  · exact List.forall_mem_singleton.mpr (safe_plain hsafe).2.2
  · intro c hc
    rcases List.mem_cons.mp hc with rfl | hc
    · decide
    · rcases List.mem_cons.mp hc with rfl | hc
      · exact hexDigit_plain ⟨b.toNat/16,by omega⟩
      · obtain rfl := List.mem_singleton.mp hc
        exact hexDigit_plain ⟨b.toNat%16,by omega⟩

theorem toNat_ofNat (b : UInt8) : (Char.ofNat b.toNat).toNat = b.toNat := by
  have hb := b.toNat_lt
  have hvalid : b.toNat.isValidChar := Or.inl (by omega)
  rw [Char.ofNat,dif_pos hvalid]
  rfl

theorem unquoteToBytes_cons {c : Char} (h : c ≠ '%') (rest : List Char) :
    unquoteToBytes (c::rest) = c.toNat::unquoteToBytes rest := by
  rw [unquoteToBytes]
  rintro a b rest rfl
  exact absurd rfl h

theorem unquote_quoteByte (b : UInt8) (rest : List Char) :
    unquoteToBytes ((quoteByte b).map unplus++rest) = b.toNat::unquoteToBytes rest := by
  unfold quoteByte
  split_ifs with hspace hsafe
  · subst hspace
    exact unquoteToBytes_cons (by decide) rest
  · obtain ⟨hpercent,hplus,-⟩ := safe_plain hsafe
    rw [List.map_singleton,unplus,if_neg hplus,List.singleton_append,unquoteToBytes_cons hpercent,toNat_ofNat]
  · have hb := b.toNat_lt
    have hhex := hexToByte_hexDigit ⟨b.toNat/16,by omega⟩ ⟨b.toNat%16,by omega⟩
    have hhigh := hexDigit_ne_plus ⟨b.toNat/16,by omega⟩
    have hlow := hexDigit_ne_plus ⟨b.toNat%16,by omega⟩
    have hunplus : ['%',hexDigit (b.toNat/16),hexDigit (b.toNat%16)].map unplus =
        ['%',hexDigit (b.toNat/16),hexDigit (b.toNat%16)] := by
      simp [unplus,hhigh,hlow]
    rw [hunplus,List.cons_append,List.cons_append,List.cons_append,List.nil_append,unquoteToBytes,hhex]
    simp only [Nat.div_add_mod]

theorem unquote_quoteBytes (bytes : List UInt8) :
    unquoteToBytes ((bytes.flatMap quoteByte).map unplus) = bytes.map UInt8.toNat := by
  induction bytes with
  | nil => rfl
  | cons b bytes ih => rw [List.flatMap_cons,List.map_append,unquote_quoteByte,ih,List.map_cons]

theorem decode_utf8 (lossy : List ℕ → String) (s : String) : decode lossy ((utf8 s).map UInt8.toNat) = s := by
  have hbytes : ((utf8 s).map UInt8.toNat).map UInt8.ofNat = utf8 s := by
    rw [List.map_map]
    exact List.map_id'' (fun b => UInt8.ofNat_toNat) _
  have hdecode : (utf8 s).toByteArray.utf8Decode? = some s.toList.toArray := List.utf8Decode?_utf8Encode
  rw [decode,hbytes,hdecode]
  exact String.ofList_toList

/-- Characters of ASCII are one part. -/
theorem unquote_ascii (lossy : List ℕ → String) {cs : List Char} (hne : cs ≠ []) (h : ∀ c ∈ cs, isAscii c = true) :
    unquote lossy cs = decode lossy (unquoteToBytes cs) := by
  have hchain : cs.IsChain fun a b => (isAscii a == isAscii b) = true := by
    refine List.Pairwise.isChain (List.pairwise_of_forall_mem_list fun a ha b hb => ?_)
    rw [h a ha,h b hb]
    rfl
  rw [unquote,List.splitBy_of_isChain hne hchain,List.map_singleton,if_pos (List.all_eq_true.mpr h)]
  simp [String.join]

theorem quoteByte_ne_nil (b : UInt8) : quoteByte b ≠ [] := by
  unfold quoteByte
  split_ifs <;> exact List.cons_ne_nil _ _

theorem quotePlus_eq_nil {s : String} : quotePlus s = [] ↔ s = "" := by
  constructor
  · intro h
    have hbytes : utf8 s = [] := by
      refine List.eq_nil_iff_forall_not_mem.mpr fun b hb => quoteByte_ne_nil b ?_
      exact List.flatMap_eq_nil_iff.mp h b hb
    have hdecode := decode_utf8 (fun _ => "") s
    rw [hbytes] at hdecode
    exact hdecode.symm.trans (decode_utf8 (fun _ => "") "")
  · rintro rfl
    rfl

theorem quotePlus_plain (s : String) : ∀ c ∈ quotePlus s, c ≠ '&' ∧ c ≠ '=' ∧ isAscii c = true := by
  intro c hc
  obtain ⟨b,-,hb⟩ := List.mem_flatMap.mp hc
  exact quoteByte_plain b c hb

theorem unquotePlus_quotePlus (lossy : List ℕ → String) (s : String) : unquotePlus lossy (quotePlus s) = s := by
  by_cases hs : s = ""
  · subst hs
    rfl
  · have hne : (quotePlus s).map unplus ≠ [] := fun h => hs (quotePlus_eq_nil.mp (List.map_eq_nil_iff.mp h))
    have hascii : ∀ c ∈ (quotePlus s).map unplus, isAscii c = true := by
      intro c hc
      obtain ⟨d,hd,rfl⟩ := List.mem_map.mp hc
      unfold unplus
      split
      · decide
      · exact (quotePlus_plain s d hd).2.2
    rw [unquotePlus,unquote_ascii lossy hne hascii,quotePlus,unquote_quoteBytes,decode_utf8]

theorem readPair_quotePair (lossy : List ℕ → String) (p : String × String) :
    readPair lossy (quotePair p) = if p.2 = "" then none else some p := by
  have hname : ∀ c ∈ quotePlus p.1, decide (c ≠ '=') = true := fun c hc => by simpa using (quotePlus_plain p.1 c hc).2.1
  have htake : (quotePair p).takeWhile (fun c => c ≠ '=') = quotePlus p.1 := by
    rw [quotePair,List.takeWhile_append_of_pos hname,List.takeWhile_cons_of_neg (by simp),List.append_nil]
  have hdrop : (quotePair p).dropWhile (fun c => c ≠ '=') = '='::quotePlus p.2 := by
    rw [quotePair,List.dropWhile_append_of_pos hname,List.dropWhile_cons_of_neg (by simp)]
  unfold readPair
  simp only [htake,hdrop,List.drop_succ_cons,List.drop_zero,quotePlus_eq_nil,unquotePlus_quotePlus]

/-- What `parse_qsl` reads of a query that `urlencode` has written. -/
theorem parseQsl_urlencode (lossy : List ℕ → String) (args : List (String × String)) :
    parseQsl lossy (urlencode args) = args.filter fun p => p.2 ≠ "" := by
  have hread : (args.map quotePair).filterMap (readPair lossy) = args.filter fun p => p.2 ≠ "" := by
    rw [List.filterMap_map]
    induction args with
    | nil => rfl
    | cons p args ih =>
      rw [List.filterMap_cons,Function.comp_apply,readPair_quotePair,ih]
      by_cases hp : p.2 = "" <;> simp [hp]
  rw [parseQsl,urlencode,String.toList_ofList,← hread]
  cases args with
  | nil => rfl
  | cons p args =>
    rw [List.splitOn_intercalate '&' ?_ (by simp)]
    intro part hpart
    obtain ⟨q,-,rfl⟩ := List.mem_map.mp hpart
    simp only [quotePair,List.mem_append,List.mem_cons,not_or]
    exact ⟨fun h => (quotePlus_plain q.1 _ h).1 rfl,by decide,fun h => (quotePlus_plain q.2 _ h).1 rfl⟩

end QueryString
end Biggy
