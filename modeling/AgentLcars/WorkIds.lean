import Mathlib.Algebra.Group.Int.Defs
import Mathlib.Data.String.Basic
import AgentLcars.Cron
import AgentLcars.Lib.Numerals

/-!
# Work ids

`libs/work/src/ulid.ts` mints the ids of submitted items; `slotItemId` of `libs/work/src/cron.ts` names
the items of schedules.  Both start with the time in base 32.

* `ulid`: the id of a time and random bytes.
* `crockfordDigits_eq`, `ulidPrefix_eq`: both encoders write the same numeral.
* `workIds_sort`: the prefixes are in the order of the times and are read back, and the ids match
  `WORK_ID_RE`.
-/

namespace AgentLcars

open Numerals

/-! ### `ulid` -/

/-- The alphabet of `ulid.ts`. -/
def ULID_ALPHABET : List Char := "0123456789ABCDEFGHJKMNPQRSTVWXYZ".toList

/-- `ALPHABET[i]` in a string concatenation of `ulid.ts`. -/
def ulidAlphabetAt (i : Int) : String :=
  match i with
  | .ofNat i => (ULID_ALPHABET[i]?.map fun c => String.ofList [c]).getD "undefined"
  | .negSucc _ => "undefined"

/-- The loop of `ulid` that writes the time. -/
def ulidPrefix : Nat → Int → String → String
  | 0, _, written => written
  | steps + 1, time, written => ulidPrefix steps (time / 32) (ulidAlphabetAt (time.tmod 32) ++ written)

/-- `ulid`, of a time and sixteen random bytes. -/
def ulid (now : Time) (bytes : Vector UInt8 16) : String :=
  ulidPrefix 10 now "" ++ String.join (bytes.toList.map fun byte => ulidAlphabetAt (byte.toNat % 32))

/-! ### The numeral -/

/-- The symbol of a digit. -/
def crockfordSymbol (digit : Nat) : Char := ALPHABET[digit]?.getD '0'

/-- The digit of a symbol. -/
def crockfordDigit (c : Char) : Nat := ALPHABET.idxOf c

/-- The time that a prefix stands for. -/
def decodeTime (text : String) : Time := Numerals.valueOf crockfordDigit 32 text.toList

theorem crockfordDigit_symbol : ∀ d < 32, crockfordDigit (crockfordSymbol d) = d := by decide +kernel

theorem crockfordSymbol_lt {d e : Nat} (hlt : d < e) (he : e < 32) :
    crockfordSymbol d < crockfordSymbol e := by
  have hall : ∀ e < 32, ∀ d < e, crockfordSymbol d < crockfordSymbol e := by decide +kernel
  exact hall e he d hlt

theorem alphabetAt_eq {d : Nat} (h : d < 32) : alphabetAt d = String.ofList [crockfordSymbol d] := by
  have hall : ∀ d < 32, alphabetAt (d : Nat) = String.ofList [crockfordSymbol d] := by decide +kernel
  exact hall d h

theorem ulidAlphabetAt_eq : ulidAlphabetAt = alphabetAt := rfl

/-- One step of either encoder on a time that is not negative. -/
theorem tmod_div (n : Nat) : (n : Int).tmod 32 = ((n % 32 : Nat) : Int) ∧ (n : Int) / 32 = ((n / 32 : Nat) : Int) := by
  constructor
  · exact (Int.ofNat_tmod n 32).symm
  · exact (Int.natCast_ediv n 32).symm

theorem crockfordDigits_eq (w n : Nat) :
    (crockfordDigits w n).toList = numeral crockfordSymbol 32 w n := by
  induction w generalizing n with
  | zero => rfl
  | succ w ih =>
    obtain ⟨hmod, hdiv⟩ := tmod_div n
    unfold crockfordDigits numeral
    rw [hmod, hdiv, String.toList_append, ih, alphabetAt_eq (Nat.mod_lt n (by decide)), String.toList_ofList]

theorem ulidPrefix_eq (steps : Nat) (time : Int) (written : String) :
    ulidPrefix steps time written = crockfordDigits steps time ++ written := by
  induction steps generalizing time written with
  | zero => exact (String.empty_append).symm
  | succ steps ih =>
    unfold ulidPrefix crockfordDigits
    rw [ih, String.append_assoc]
    rfl

/-! ### The random characters -/

theorem join_alphabetAt (digits : List Nat) (h : ∀ d ∈ digits, d < 32) :
    (String.join (digits.map fun d => alphabetAt (d : Nat))).toList = digits.map crockfordSymbol := by
  induction digits with
  | nil => rfl
  | cons d digits ih =>
    obtain ⟨hd, hrest⟩ := List.forall_mem_cons.1 h
    rw [List.map_cons, List.map_cons, String.join_cons, String.toList_append, ih hrest, alphabetAt_eq hd,
      String.toList_ofList]
    rfl

/-- Sixteen characters behind the time. -/
theorem suffix_eq (bytes : List UInt8) :
    (String.join (bytes.map fun byte => alphabetAt (byte.toNat % 32 : Int))).toList =
      bytes.map fun byte => crockfordSymbol (byte.toNat % 32) := by
  have hdigits : ∀ d ∈ bytes.map (fun byte => byte.toNat % 32), d < 32 := by
    intro d hd
    obtain ⟨byte, -, rfl⟩ := List.mem_map.1 hd
    exact Nat.mod_lt _ (by decide)
  have hjoin := join_alphabetAt _ hdigits
  rw [List.map_map, List.map_map] at hjoin
  exact hjoin

/-! ### Ids -/

/-- The ids of a time: of any random bytes, and of any schedule. -/
def IsIdAt (sha256 : String → List UInt8) (t : Time) (id : String) : Prop :=
  (∃ bytes, id = ulid t bytes) ∨ ∃ scheduleId, id = slotItemId sha256 scheduleId t

/-- An id is the time in ten characters and sixteen more of the alphabet. -/
theorem IsIdAt.toList {sha256 : String → List UInt8} (hsha : ∀ text, (sha256 text).length = 32) {n : Nat}
    {id : String} (h : IsIdAt sha256 n id) :
    ∃ bytes : List UInt8, bytes.length = 16 ∧ id.toList = numeral crockfordSymbol 32 10 n ++
      bytes.map fun byte => crockfordSymbol (byte.toNat % 32) := by
  rcases h with ⟨bytes, rfl⟩ | ⟨scheduleId, rfl⟩
  · refine ⟨bytes.toList, bytes.length_toList, ?_⟩
    unfold ulid
    rw [ulidPrefix_eq, String.append_empty, String.toList_append, crockfordDigits_eq, ulidAlphabetAt_eq,
      suffix_eq]
  · refine ⟨(sha256 (scheduleId ++ ":" ++ toISOString n)).take 16, ?_, ?_⟩
    · rw [List.length_take, hsha]
      rfl
    · unfold slotItemId crockfordTimePrefix
      rw [String.toList_append, crockfordDigits_eq, suffix_eq]

theorem isWorkId_of_symbols {id : String} (hlength : id.toList.length = 26)
    (h : ∀ c ∈ id.toList, ∃ d < 32, crockfordSymbol d = c) : isWorkId id = true := by
  have hall : ∀ d < 32, ((crockfordSymbol d).isDigit ∨ ('A' ≤ crockfordSymbol d ∧ crockfordSymbol d ≤ 'Z' ∧
      crockfordSymbol d ≠ 'I' ∧ crockfordSymbol d ≠ 'L' ∧ crockfordSymbol d ≠ 'O' ∧ crockfordSymbol d ≠ 'U')) := by
    decide +kernel
  unfold isWorkId
  rw [decide_eq_true_iff]
  refine ⟨hlength, List.all_eq_true.2 fun c hc => ?_⟩
  obtain ⟨d, hd, rfl⟩ := h c hc
  exact decide_eq_true (hall d hd)

theorem IsIdAt.valid {sha256 : String → List UInt8} (hsha : ∀ text, (sha256 text).length = 32) {n : Nat}
    {id : String} (h : IsIdAt sha256 n id) : id.toList.length = 26 ∧ isWorkId id = true := by
  obtain ⟨bytes, hbytes, hid⟩ := h.toList hsha
  have hlength : id.toList.length = 26 := by
    rw [hid, List.length_append, length_numeral, List.length_map, hbytes]
  refine ⟨hlength, isWorkId_of_symbols hlength fun c hc => ?_⟩
  rw [hid] at hc
  rcases List.mem_append.1 hc with hc | hc
  · exact mem_numeral (by decide) hc
  · obtain ⟨byte, -, rfl⟩ := List.mem_map.1 hc
    exact ⟨_, Nat.mod_lt _ (by decide), rfl⟩

theorem IsIdAt.take {sha256 : String → List UInt8} (hsha : ∀ text, (sha256 text).length = 32) {n : Nat}
    {id : String} (h : IsIdAt sha256 n id) : id.toList.take 10 = (crockfordTimePrefix n).toList := by
  obtain ⟨bytes, -, hid⟩ := h.toList hsha
  unfold crockfordTimePrefix
  rw [hid, crockfordDigits_eq, List.take_left' (length_numeral 10 n)]

theorem decodeTime_crockford {n : Nat} (h : n < 32 ^ 10) : decodeTime (crockfordTimePrefix n) = n := by
  unfold decodeTime crockfordTimePrefix
  rw [crockfordDigits_eq, valueOf_numeral (by decide) crockfordDigit_symbol, Nat.mod_eq_of_lt h]

theorem prefix_lt {m n : Nat} (h : m < n) (hn : n < 32 ^ 10) :
    crockfordTimePrefix m < crockfordTimePrefix n := by
  unfold crockfordTimePrefix
  rw [String.lt_iff_toList_lt, crockfordDigits_eq, crockfordDigits_eq]
  exact List.lt_iff_lex_lt _ _ |>.2 (numeral_lex (fun _ _ => crockfordSymbol_lt) h hn)

/-- What the ids of two times have in common. -/
structure IdsSort (sha256 : String → List UInt8) (t u : Time) : Prop where
  length : (crockfordTimePrefix t).toList.length = 10
  samePrefix : ∀ id, IsIdAt sha256 t id → id.toList.take 10 = (crockfordTimePrefix t).toList
  order : t < u ↔ crockfordTimePrefix t < crockfordTimePrefix u
  distinct : t ≠ u → ∀ id id', IsIdAt sha256 t id → IsIdAt sha256 u id' → id ≠ id'
  decoded : decodeTime (crockfordTimePrefix t) = t
  valid : ∀ id, IsIdAt sha256 t id → id.toList.length = 26 ∧ isWorkId id = true

/-- Work ids sort by time. -/
theorem workIds_sort {sha256 : String → List UInt8} (hsha : ∀ text, (sha256 text).length = 32) {t u : Time}
    (ht : 0 ≤ t ∧ t < 32 ^ 10) (hu : 0 ≤ u ∧ u < 32 ^ 10) : IdsSort sha256 t u := by
  obtain ⟨m, rfl⟩ := Int.eq_ofNat_of_zero_le ht.1
  obtain ⟨n, rfl⟩ := Int.eq_ofNat_of_zero_le hu.1
  have hm : m < 32 ^ 10 := by exact_mod_cast ht.2
  have hn : n < 32 ^ 10 := by exact_mod_cast hu.2
  have hlength : (crockfordTimePrefix m).toList.length = 10 := by
    unfold crockfordTimePrefix
    rw [crockfordDigits_eq, length_numeral]
  refine ⟨hlength, fun id hid => hid.take hsha, ⟨fun h => ?_, fun h => ?_⟩, fun hne id id' hid hid' heq => ?_,
    decodeTime_crockford hm, fun id hid => hid.valid hsha⟩
  · exact prefix_lt (by exact_mod_cast h) hn
  · by_contra hge
    rcases Nat.lt_or_eq_of_le (show n ≤ m by exact_mod_cast not_lt.1 hge) with hlt | rfl
    · exact lt_asymm h (prefix_lt hlt hm)
    · exact lt_irrefl _ h
  · have htake := hid.take hsha
    rw [heq, hid'.take hsha, String.toList_inj] at htake
    have hdecoded := congrArg decodeTime htake
    rw [decodeTime_crockford hm, decodeTime_crockford hn] at hdecoded
    exact hne hdecoded.symm

theorem workIds_sort_zeros : IdsSort (fun _ => List.replicate 32 0) 1_700_000_000_000 1_700_000_000_001 :=
  workIds_sort (fun _ => rfl) (by decide) (by decide)

end AgentLcars
