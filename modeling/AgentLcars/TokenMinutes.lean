import Mathlib
import AgentLcars.Model

/-!
# Token minutes

The per-minute token deltas that a session document carries, as `token-minutes.ts` keeps them. An instant is its
number of milliseconds, as everywhere here, and a minute is its first instant.

* `nextTokenMinutes`: the deltas after one write, and `writeAll` for a run of writes.
* `growth`: what each write lifts the highest total by, at the minute it is credited to.
* `tokenMinutes_conserve`: the list holds exactly the growth of the minutes still in the window.
-/

namespace AgentLcars

def MINUTE_MS : Int := 60000

def TOKEN_MINUTES_WINDOW : Nat := 30

/-- Counts are safe integers from zero on, as the parser of session events ensures. -/
structure TokenUsage where
  inputTokens : Nat
  outputTokens : Nat
  cacheCreationTokens : Nat
  cacheReadTokens : Nat

/-- `totalTokens` over exact numbers. The code adds doubles, whose rounding is not modelled: below the total is a
parameter. -/
def totalTokens (tokens : TokenUsage) : Nat :=
  (20 * tokens.inputTokens + 20 * tokens.outputTokens + 25 * tokens.cacheCreationTokens +
    2 * tokens.cacheReadTokens + 10) / 20

structure TokenMinute where
  minute : Time
  tokens : Nat
deriving DecidableEq

/-- An entry as stored, by any writer: the instant its minute parses to and the integer its tokens
are, if any. -/
structure StoredMinute where
  minute : Option Time
  tokens : Option Int

/-- What a stored document says of its tokens. The list is absent when the field is no array. -/
structure StoredTokens where
  tokens : TokenUsage
  tokenMinutes : Option (List StoredMinute)
  tokenMinutesBase : Option Int

structure CreditedTokens where
  tokenMinutes : List TokenMinute
  tokenMinutesBase : Nat
deriving DecidableEq

/-- The start of an instant's UTC minute. -/
def tokenMinuteOf (iso : Time) : Time := iso / MINUTE_MS * MINUTE_MS

/-- A number that is a safe integer and not negative. -/
def safeCount (value : Option Int) : Option Nat :=
  value.bind fun n => if 0 ≤ n ∧ n ≤ MAX_SAFE_INTEGER then some n.toNat else none

def StoredMinute.parse (entry : StoredMinute) : Option TokenMinute :=
  entry.minute.bind fun minute => (safeCount entry.tokens).map fun tokens => ⟨minute, tokens⟩

def parseTokenMinutes (value : Option (List StoredMinute)) : Option (List TokenMinute) :=
  value.map (List.filterMap StoredMinute.parse)

/-- The first instant that the window before now no longer covers ends here. -/
def windowStart (now : Time) : Time := now - TOKEN_MINUTES_WINDOW * MINUTE_MS

/-- A minute that ends inside the window still counts. -/
def minuteInWindow (now minute : Time) : Bool := decide (windowStart now < minute + MINUTE_MS)

/-- Adds to the entry of the minute, or appends one. -/
def credit (minute : Time) (delta : Nat) : List TokenMinute → List TokenMinute
  | [] => [⟨minute, delta⟩]
  | entry :: rest =>
    if entry.minute = minute then ⟨entry.minute, entry.tokens + delta⟩ :: rest
    else entry :: credit minute delta rest

section

variable (total : TokenUsage → Nat)

/-- The highest total already credited. -/
def creditedBase (stored : Option StoredTokens) (tokens : TokenUsage) : Nat :=
  match stored with
  | none => total tokens
  | some doc => (safeCount doc.tokenMinutesBase).getD (total doc.tokens)

def keptMinutes (stored : Option StoredTokens) (now : Time) : List TokenMinute :=
  ((parseTokenMinutes (stored.bind StoredTokens.tokenMinutes)).getD []).filter fun entry =>
    minuteInWindow now entry.minute && decide (entry.minute ≤ now)

/-- The kept entries with the growth of the write. -/
def creditedMinutes (stored : Option StoredTokens) (tokens : TokenUsage) (occurredAt : Option Time)
    (now : Time) :
    List TokenMinute :=
  let kept := keptMinutes stored now
  let delta : Int := total tokens - creditedBase total stored tokens
  match occurredAt with
  | none => kept
  | some occurred =>
    -- A late flush is credited when it happened, never in the future.
    let minute := tokenMinuteOf (min occurred now)
    if 0 < delta ∧ minuteInWindow now minute = true then credit minute delta.toNat kept else kept

/-- The sorted list before its truncation. -/
def sortedMinutes (stored : Option StoredTokens) (tokens : TokenUsage) (occurredAt : Option Time)
    (now : Time) :
    List TokenMinute :=
  (creditedMinutes total stored tokens occurredAt now).mergeSort fun a b =>
    decide (a.minute ≤ b.minute)

/-- `slice(-TOKEN_MINUTES_WINDOW - 1)`. -/
def lastMinutes (minutes : List TokenMinute) : List TokenMinute :=
  minutes.drop (minutes.length - (TOKEN_MINUTES_WINDOW + 1))

def nextTokenMinutes (stored : Option StoredTokens) (tokens : TokenUsage) (occurredAt : Option Time)
    (now : Time) :
    CreditedTokens where
  tokenMinutes := lastMinutes (sortedMinutes total stored tokens occurredAt now)
  tokenMinutesBase := max (creditedBase total stored tokens) (total tokens)

/-! ### Runs of writes -/

/-- One write of a session document, with an event's time that is a date. -/
structure TokenWrite where
  tokens : TokenUsage
  occurredAt : Time
  now : Time

def TokenMinute.stored (entry : TokenMinute) : StoredMinute :=
  ⟨some entry.minute, some entry.tokens⟩

/-- What the write of these deltas leaves on the document. -/
def CreditedTokens.stored (credited : CreditedTokens) (tokens : TokenUsage) : StoredTokens where
  tokens := tokens
  tokenMinutes := some (credited.tokenMinutes.map TokenMinute.stored)
  tokenMinutesBase := some credited.tokenMinutesBase

/-- What one write computes from the document that is stored. -/
def TokenWrite.credited (stored : Option StoredTokens) (w : TokenWrite) : CreditedTokens :=
  nextTokenMinutes total stored w.tokens (some w.occurredAt) w.now

/-- The document after a run of writes that starts from none. -/
def writeAll (writes : List TokenWrite) : Option StoredTokens :=
  writes.foldl (fun stored w => some ((w.credited total stored).stored w.tokens)) none

/-- The highest total of a run. -/
def highestTotal (writes : List TokenWrite) : Nat :=
  writes.foldl (fun highest w => max highest (total w.tokens)) 0

/-- The minute that a write credits. -/
def TokenWrite.minute (w : TokenWrite) : Time := tokenMinuteOf (min w.occurredAt w.now)

/-- What each of the writes lifts the highest total by, at the minute that it credits. -/
def growthAbove : Nat → List TokenWrite → List TokenMinute
  | _, [] => []
  | highest, w :: rest =>
    ⟨w.minute, total w.tokens - highest⟩ :: growthAbove (max highest (total w.tokens)) rest

/-- The growth of a run, of whose first write the earlier tokens have no known minute. -/
def growth : List TokenWrite → List TokenMinute
  | [] => []
  | w :: rest => growthAbove total (total w.tokens) rest

end

/-- The tokens of all entries whose minutes are as asked. -/
def tokensIn (which : Time → Bool) (entries : List TokenMinute) : Nat :=
  ((entries.filter fun entry => which entry.minute).map TokenMinute.tokens).sum

section Sums

variable {which : Time → Bool} {entries others : List TokenMinute}

theorem tokensIn_append :
    tokensIn which (entries ++ others) = tokensIn which entries + tokensIn which others := by
  unfold tokensIn
  rw [List.filter_append, List.map_append, List.sum_append]

theorem tokensIn_perm (h : entries.Perm others) : tokensIn which entries = tokensIn which others :=
  ((h.filter _).map _).sum_eq

theorem tokensIn_cons (entry : TokenMinute) :
    tokensIn which (entry :: entries) =
      (if which entry.minute then entry.tokens else 0) + tokensIn which entries := by
  unfold tokensIn
  rw [List.filter_cons]
  cases which entry.minute with
  | true => rw [if_pos rfl, if_pos rfl, List.map_cons, List.sum_cons]
  | false => rw [if_neg Bool.false_ne_true, if_neg Bool.false_ne_true, Nat.zero_add]

theorem tokensIn_filter (among : Time → Bool) :
    tokensIn which (entries.filter fun entry => among entry.minute) =
      tokensIn (fun minute => which minute && among minute) entries := by
  unfold tokensIn
  rw [List.filter_filter]

theorem tokensIn_congr {among : Time → Bool}
    (h : ∀ entry ∈ entries, which entry.minute = among entry.minute) :
    tokensIn which entries = tokensIn among entries := by
  unfold tokensIn
  rw [List.filter_congr h]

theorem tokensIn_le : tokensIn which entries ≤ tokensIn (fun _ => true) entries := by
  induction entries with
  | nil => exact Nat.le_refl _
  | cons entry rest ih =>
    rw [tokensIn_cons, tokensIn_cons, if_pos rfl]
    split <;> omega

theorem le_tokensIn {entry : TokenMinute} (h : entry ∈ entries) :
    entry.tokens ≤ tokensIn (fun _ => true) entries := by
  unfold tokensIn
  rw [List.filter_true]
  exact List.single_le_sum (fun _ _ => Nat.zero_le _) _ (List.mem_map_of_mem h)

theorem tokensIn_eq_zero (h : ∀ entry ∈ entries, which entry.minute = false) :
    tokensIn which entries = 0 := by
  unfold tokensIn
  rw [List.filter_eq_nil_iff.2 fun entry hmem => by rw [h entry hmem]; exact Bool.false_ne_true]
  rfl

theorem tokensIn_credit (minute : Time) (delta : Nat) :
    tokensIn which (credit minute delta entries) =
      tokensIn which entries + if which minute then delta else 0 := by
  induction entries with
  | nil =>
    unfold credit
    rw [tokensIn_cons]
    exact Nat.add_comm _ _
  | cons entry rest ih =>
    unfold credit
    by_cases hentry : entry.minute = minute
    · rw [if_pos hentry, tokensIn_cons, tokensIn_cons, hentry]
      dsimp only
      split <;> omega
    · rw [if_neg hentry, tokensIn_cons, tokensIn_cons, ih]
      omega

/-- A credit adds a minute that has no entry, and no other. -/
theorem minutes_credit (minute : Time) (delta : Nat) :
    (credit minute delta entries).map TokenMinute.minute =
      if minute ∈ entries.map TokenMinute.minute then entries.map TokenMinute.minute
      else entries.map TokenMinute.minute ++ [minute] := by
  induction entries with
  | nil => rfl
  | cons entry rest ih =>
    unfold credit
    by_cases hentry : entry.minute = minute
    · rw [if_pos hentry, if_pos (by rw [List.map_cons, hentry]; exact List.mem_cons_self)]
      rfl
    · rw [if_neg hentry, List.map_cons, ih, List.map_cons]
      by_cases hmem : minute ∈ rest.map TokenMinute.minute
      · rw [if_pos hmem, if_pos (List.mem_cons_of_mem _ hmem)]
      · have hnot : minute ∉ entry.minute :: rest.map TokenMinute.minute := by
          rw [List.mem_cons]
          rintro (h | h)
          · exact hentry h.symm
          · exact hmem h
        rw [if_neg hmem, if_neg hnot, List.cons_append]

theorem nodup_credit {minute : Time} {delta : Nat} (h : (entries.map TokenMinute.minute).Nodup) :
    ((credit minute delta entries).map TokenMinute.minute).Nodup := by
  rw [minutes_credit]
  by_cases hmem : minute ∈ entries.map TokenMinute.minute
  · rwa [if_pos hmem]
  · rw [if_neg hmem]
    rw [← List.concat_eq_append]
    exact h.concat hmem

end Sums

/-! ### The window -/

section Window

variable {now later minute : Time}

theorem tokenMinuteOf_le (t : Time) : tokenMinuteOf t ≤ t := by
  unfold tokenMinuteOf MINUTE_MS Time at *
  omega

/-- The first instant of a minute is of that minute. -/
theorem tokenMinuteOf_idem (t : Time) : tokenMinuteOf (tokenMinuteOf t) = tokenMinuteOf t := by
  unfold tokenMinuteOf MINUTE_MS Time at *
  omega

theorem minuteInWindow_of_le (h : now ≤ later) (hin : minuteInWindow later minute = true) :
    minuteInWindow now minute = true := by
  unfold minuteInWindow windowStart MINUTE_MS Time at *
  rw [decide_eq_true_eq] at *
  omega

/-- The tokens of one minute, counted while it is in the window. -/
theorem tokensIn_at (entries : List TokenMinute) :
    tokensIn (fun m => decide (m = minute) && minuteInWindow now m) entries =
      if minuteInWindow now minute then tokensIn (fun m => decide (m = minute)) entries else 0 := by
  have hsame : ∀ entry ∈ entries,
    (decide (entry.minute = minute) && minuteInWindow now entry.minute) =
      (decide (entry.minute = minute) && minuteInWindow now minute) := by
    intro entry _
    by_cases heq : entry.minute = minute
    · rw [heq]
    · rw [decide_eq_false heq, Bool.false_and, Bool.false_and]
  split
  · rename_i hin
    refine tokensIn_congr ?_
    intro entry hmem
    rw [hsame entry hmem, hin, Bool.and_true]
  · rename_i hout
    refine tokensIn_eq_zero ?_
    intro entry hmem
    rw [hsame entry hmem, Bool.eq_false_iff.2 hout, Bool.and_false]

/-- A minute in the window before now: the list of a document holds no others. -/
structure Recent (now minute : Time) : Prop where
  start : tokenMinuteOf minute = minute
  inside : minuteInWindow now minute = true
  past : minute ≤ now

theorem Recent.index_mem (h : Recent now minute) :
    minute / MINUTE_MS ∈ Finset.Icc (now / MINUTE_MS - TOKEN_MINUTES_WINDOW) (now / MINUTE_MS) := by
  obtain ⟨hstart, hinside, hpast⟩ := h
  unfold minuteInWindow windowStart at hinside
  rw [decide_eq_true_eq] at hinside
  unfold tokenMinuteOf at hstart
  rw [Finset.mem_Icc]
  unfold MINUTE_MS TOKEN_MINUTES_WINDOW Time at *
  omega

/-- The window has room for as many minutes as the list may hold. -/
theorem length_le_of_recent {minutes : List Time} (hnodup : minutes.Nodup)
    (h : ∀ minute ∈ minutes, Recent now minute) :
    minutes.length ≤ TOKEN_MINUTES_WINDOW + 1 := by
  have hindices : (minutes.map (· / MINUTE_MS)).Nodup := by
    refine hnodup.map_on ?_
    intro a ha b hb hab
    rw [← (h a ha).start, ← (h b hb).start]
    exact congrArg (· * MINUTE_MS) hab
  have hsub : (minutes.map (· / MINUTE_MS)).toFinset ⊆
      Finset.Icc (now / MINUTE_MS - TOKEN_MINUTES_WINDOW) (now / MINUTE_MS) := by
    intro index hindex
    rw [List.mem_toFinset, List.mem_map] at hindex
    obtain ⟨minute, hmem, rfl⟩ := hindex
    exact (h minute hmem).index_mem
  have hcard := Finset.card_le_card hsub
  rw [List.toFinset_card_of_nodup hindices, List.length_map, Int.card_Icc] at hcard
  omega

theorem lastMinutes_eq {minutes : List TokenMinute}
    (h : minutes.length ≤ TOKEN_MINUTES_WINDOW + 1) :
    lastMinutes minutes = minutes := by
  unfold lastMinutes
  rw [Nat.sub_eq_zero_of_le h]
  rfl

end Window

/-! ### Growth -/

section

variable {total : TokenUsage → Nat} {highest : Nat} {writes : List TokenWrite}

theorem highestTotal_concat (w : TokenWrite) :
    highestTotal total (writes ++ [w]) = max (highestTotal total writes) (total w.tokens) := by
  unfold highestTotal
  rw [List.foldl_append]
  rfl

theorem le_highestTotal {w : TokenWrite} (h : w ∈ writes) :
    total w.tokens ≤ highestTotal total writes := by
  induction writes using List.reverseRecOn with
  | nil => exact absurd h List.not_mem_nil
  | append_singleton prior last ih =>
    rw [highestTotal_concat]
    rcases List.mem_append.1 h with hprior | hlast
    · exact Nat.le_trans (ih hprior) (Nat.le_max_left _ _)
    · rw [List.mem_singleton.1 hlast]
      exact Nat.le_max_right _ _

theorem highestTotal_le {bound : Nat} (h : ∀ w ∈ writes, total w.tokens ≤ bound) :
    highestTotal total writes ≤ bound := by
  induction writes using List.reverseRecOn with
  | nil => exact Nat.zero_le _
  | append_singleton prior last ih =>
    rw [highestTotal_concat]
    exact Nat.max_le.2 ⟨ih fun w hw => h w (List.mem_append_left _ hw),
      h last (List.mem_append_right _ List.mem_cons_self)⟩

theorem highestTotal_mem (hne : writes ≠ []) :
    ∃ w ∈ writes, total w.tokens = highestTotal total writes := by
  induction writes using List.reverseRecOn with
  | nil => exact absurd rfl hne
  | append_singleton prior last ih =>
    have hlast : last ∈ prior ++ [last] := List.mem_append_right _ List.mem_cons_self
    rw [highestTotal_concat]
    by_cases hprior : prior = []
    · rw [hprior] at hlast ⊢
      exact ⟨last, hlast, (Nat.max_eq_right (Nat.zero_le _)).symm⟩
    · obtain ⟨w, hw, heq⟩ := ih hprior
      rcases Nat.le_total (highestTotal total prior) (total last.tokens) with hle | hle
      · exact ⟨last, hlast, (Nat.max_eq_right hle).symm⟩
      · exact ⟨w, List.mem_append_left _ hw, heq.trans (Nat.max_eq_left hle).symm⟩

theorem growthAbove_concat (w : TokenWrite) :
    growthAbove total highest (writes ++ [w]) =
      growthAbove total highest writes ++
        [⟨w.minute, total w.tokens - writes.foldl (fun highest w => max highest (total w.tokens)) highest⟩] := by
  induction writes generalizing highest with
  | nil => rfl
  | cons first rest ih =>
    rw [List.cons_append, growthAbove, ih]
    rfl

/-- The growth of a run that was begun. -/
theorem growth_concat (hne : writes ≠ []) (w : TokenWrite) :
    growth total (writes ++ [w]) =
      growth total writes ++ [⟨w.minute, total w.tokens - highestTotal total writes⟩] := by
  cases writes with
  | nil => exact absurd rfl hne
  | cons first rest =>
    show growthAbove total (total first.tokens) (rest ++ [w]) = _
    unfold highestTotal
    rw [growthAbove_concat, List.foldl_cons, Nat.zero_max]
    rfl

/-- Growth adds up to no more than the highest total. -/
theorem tokensIn_growth_le : tokensIn (fun _ => true)
    (growth total writes) ≤ highestTotal total writes := by
  induction writes using List.reverseRecOn with
  | nil => exact Nat.le_refl _
  | append_singleton prior w ih =>
    cases prior with
    | nil => exact Nat.zero_le _
    | cons first rest =>
      rw [growth_concat (List.cons_ne_nil _ _), tokensIn_append, highestTotal_concat]
      have hlast : tokensIn (fun _ => true)
          [(⟨w.minute, total w.tokens - highestTotal total (first :: rest)⟩ : TokenMinute)] =
          total w.tokens - highestTotal total (first :: rest) := rfl
      omega

end

/-! ### One write -/

section Write

variable {total : TokenUsage → Nat} {stored : Option StoredTokens} {w : TokenWrite}

theorem TokenWrite.recent (h : minuteInWindow w.now w.minute = true) : Recent w.now w.minute where
  start := tokenMinuteOf_idem _
  inside := h
  past := Int.le_trans (tokenMinuteOf_le _) (Int.min_le_right _ _)

theorem creditedMinutes_eq :
    creditedMinutes total stored w.tokens (some w.occurredAt) w.now =
      if 0 < total w.tokens - creditedBase total stored w.tokens ∧ minuteInWindow w.now w.minute =
        true then
        credit w.minute (total w.tokens - creditedBase total stored w.tokens)
        (keptMinutes stored w.now)
      else keptMinutes stored w.now := by
  have hdelta : ((total w.tokens : Int) - creditedBase total stored w.tokens).toNat =
      total w.tokens - creditedBase total stored w.tokens := by
    omega
  have hpos : (0 < (total w.tokens : Int) - creditedBase total stored w.tokens) ↔
      0 < total w.tokens - creditedBase total stored w.tokens := by
    omega
  show (if _ ∧ _ then _ else _) = _
  rw [hdelta]
  simp only [hpos]
  rfl

theorem tokensIn_creditedMinutes (which : Time → Bool) :
    tokensIn which (creditedMinutes total stored w.tokens (some w.occurredAt) w.now) =
      tokensIn which (keptMinutes stored w.now) +
        if which w.minute && minuteInWindow w.now w.minute then total w.tokens - creditedBase total stored w.tokens
        else 0 := by
  rw [creditedMinutes_eq]
  by_cases hcredit : 0 < total w.tokens - creditedBase total stored w.tokens ∧
    minuteInWindow w.now w.minute = true
  · rw [if_pos hcredit, tokensIn_credit, hcredit.2, Bool.and_true]
  · rw [if_neg hcredit]
    split
    · rename_i hboth
      rw [Bool.and_eq_true] at hboth
      have hzero : ¬0 < total w.tokens - creditedBase total stored w.tokens := fun hpos =>
        hcredit ⟨hpos, hboth.2⟩
      omega
    · rfl

/-- The list that a write sorts keeps its minutes apart and in the window. -/
theorem creditedMinutes_recent (hnodup : ((keptMinutes stored w.now).map TokenMinute.minute).Nodup)
    (hrecent : ∀ minute ∈ (keptMinutes stored w.now).map TokenMinute.minute, Recent w.now minute) :
    let minutes :=
      (creditedMinutes total stored w.tokens (some w.occurredAt) w.now).map TokenMinute.minute
    minutes.Nodup ∧ ∀ minute ∈ minutes, Recent w.now minute := by
  intro minutes
  show (List.map TokenMinute.minute (creditedMinutes total stored w.tokens (some w.occurredAt) w.now)).Nodup ∧
    ∀ minute ∈ List.map TokenMinute.minute (creditedMinutes total stored w.tokens (some w.occurredAt) w.now),
      Recent w.now minute
  rw [creditedMinutes_eq]
  split
  · rename_i hcredit
    refine ⟨nodup_credit hnodup, ?_⟩
    intro minute hmem
    rw [minutes_credit] at hmem
    split at hmem
    · exact hrecent minute hmem
    · rcases List.mem_append.1 hmem with hkept | hlast
      · exact hrecent minute hkept
      · rw [List.mem_singleton.1 hlast]
        exact TokenWrite.recent hcredit.2
  · exact ⟨hnodup, hrecent⟩

theorem sortedMinutes_perm :
    (sortedMinutes total stored w.tokens (some w.occurredAt) w.now).Perm
      (creditedMinutes total stored w.tokens (some w.occurredAt) w.now) :=
  List.mergeSort_perm _ _

theorem sortedMinutes_sorted
    (hnodup : ((creditedMinutes total stored w.tokens (some w.occurredAt) w.now).map TokenMinute.minute).Nodup) :
    (sortedMinutes total stored w.tokens (some w.occurredAt) w.now).Pairwise fun a b => a.minute < b.minute := by
  have hle : (sortedMinutes total stored w.tokens (some w.occurredAt) w.now).Pairwise
      fun a b => decide (a.minute ≤ b.minute) = true := by
    refine List.pairwise_mergeSort ?_ ?_ _
    · intro a b c hab hbc
      rw [decide_eq_true_eq] at *
      exact Int.le_trans hab hbc
    · intro a b
      rw [Bool.or_eq_true, decide_eq_true_eq, decide_eq_true_eq]
      exact Int.le_total _ _
  have hne : (sortedMinutes total stored w.tokens (some w.occurredAt) w.now).Pairwise
      fun a b => a.minute ≠ b.minute := by
    have hperm := (@sortedMinutes_perm total stored w).map TokenMinute.minute
    exact List.pairwise_map.1 (hperm.nodup_iff.2 hnodup)
  refine (hle.and hne).imp ?_
  rintro a b ⟨hab, hdistinct⟩
  exact Int.lt_iff_le_and_ne.2 ⟨of_decide_eq_true hab, hdistinct⟩

end Write

/-! ### Runs -/

/-- What the deltas of a document are after a run of writes, the last of them at `now`. -/
structure Measured (total : TokenUsage → Nat) (writes : List TokenWrite) (now : Time)
    (credited : CreditedTokens) :
    Prop where
  base : credited.tokenMinutesBase = highestTotal total writes
  sorted : credited.tokenMinutes.Pairwise fun a b => a.minute < b.minute
  recent : ∀ entry ∈ credited.tokenMinutes, Recent now entry.minute
  conserved : ∀ which, tokensIn which credited.tokenMinutes =
    tokensIn (fun minute => which minute && minuteInWindow now minute) (growth total writes)

section Runs

variable {total : TokenUsage → Nat} {writes : List TokenWrite}

theorem parse_stored {entry : TokenMinute} (h : entry.tokens ≤ MAX_SAFE_INTEGER) :
    entry.stored.parse = some entry := by
  unfold TokenMinute.stored StoredMinute.parse safeCount
  rw [Option.bind_some, Option.bind_some, if_pos ⟨by omega, by omega⟩, Option.map_some]
  rfl

/-- Reading back what a write stored drops nothing but minutes that are over. -/
theorem keptMinutes_stored {credited : CreditedTokens} (tokens : TokenUsage) (now : Time)
    (h : ∀ entry ∈ credited.tokenMinutes, entry.tokens ≤ MAX_SAFE_INTEGER) :
    keptMinutes (some (credited.stored tokens)) now =
      credited.tokenMinutes.filter fun entry => minuteInWindow now entry.minute && decide (entry.minute ≤ now) := by
  have hparse : (credited.tokenMinutes.map TokenMinute.stored).filterMap StoredMinute.parse =
      credited.tokenMinutes := by
    rw [List.filterMap_map]
    calc
      _ = credited.tokenMinutes.filterMap some := List.filterMap_congr fun entry hmem =>
        parse_stored (h entry hmem)
      _ = credited.tokenMinutes := List.filterMap_some
  unfold keptMinutes parseTokenMinutes
  show (((Option.map _ (some _)).getD []).filter _) = _
  rw [Option.map_some, hparse]
  rfl

theorem creditedBase_stored {credited : CreditedTokens} (tokens tokens' : TokenUsage)
    (h : credited.tokenMinutesBase ≤ MAX_SAFE_INTEGER) :
    creditedBase total (some (credited.stored tokens)) tokens' = credited.tokenMinutesBase := by
  show (safeCount (some (credited.tokenMinutesBase : Int))).getD _ = _
  unfold safeCount
  rw [Option.bind_some, if_pos ⟨by omega, by omega⟩]
  rfl

theorem writeAll_concat (w : TokenWrite) :
    writeAll total (writes ++ [w]) =
      some ((w.credited total (writeAll total writes)).stored w.tokens) := by
  unfold writeAll
  rw [List.foldl_append]
  rfl

/-- What a write leaves, from what it keeps. -/
theorem measured_of_kept {stored : Option StoredTokens} {w : TokenWrite} {earlier : List TokenWrite}
    (hbase : max (creditedBase total stored w.tokens) (total w.tokens) = highestTotal total earlier)
    (hnodup : ((keptMinutes stored w.now).map TokenMinute.minute).Nodup)
    (hrecent : ∀ minute ∈ (keptMinutes stored w.now).map TokenMinute.minute, Recent w.now minute)
    (hconserved : ∀ which, tokensIn which (keptMinutes stored w.now) +
        (if which w.minute && minuteInWindow w.now w.minute then
          total w.tokens - creditedBase total stored w.tokens else 0) =
      tokensIn (fun minute => which minute && minuteInWindow w.now minute) (growth total earlier)) :
    Measured total earlier w.now (w.credited total stored) ∧
      (w.credited total stored).tokenMinutes =
        sortedMinutes total stored w.tokens (some w.occurredAt) w.now := by
  obtain ⟨hdistinct, hall⟩ := @creditedMinutes_recent total stored w hnodup hrecent
  have hperm := @sortedMinutes_perm total stored w
  have hlength : (sortedMinutes total stored w.tokens (some w.occurredAt) w.now).length ≤
      TOKEN_MINUTES_WINDOW + 1 := by
    have hle := length_le_of_recent hdistinct hall
    rw [List.length_map] at hle
    rw [hperm.length_eq]
    exact hle
  have hwhole : (w.credited total stored).tokenMinutes =
      sortedMinutes total stored w.tokens (some w.occurredAt) w.now :=
    lastMinutes_eq hlength
  refine ⟨⟨hbase, ?_, ?_, ?_⟩, hwhole⟩
  · rw [hwhole]
    exact sortedMinutes_sorted hdistinct
  · intro entry hmem
    rw [hwhole, hperm.mem_iff] at hmem
    exact hall entry.minute (List.mem_map_of_mem hmem)
  · intro which
    rw [hwhole, tokensIn_perm hperm, tokensIn_creditedMinutes]
    exact hconserved which

theorem Measured.nodup {now : Time} {credited : CreditedTokens}
    (h : Measured total writes now credited) :
    (credited.tokenMinutes.map TokenMinute.minute).Nodup :=
  List.pairwise_map.2 (h.sorted.imp fun hlt => Int.ne_of_lt hlt)

theorem Measured.tokens_le {now : Time} {credited : CreditedTokens}
    (h : Measured total writes now credited)
    (hsafe : ∀ w ∈ writes, total w.tokens ≤ MAX_SAFE_INTEGER) :
    ∀ entry ∈ credited.tokenMinutes, entry.tokens ≤ MAX_SAFE_INTEGER := by
  intro entry hmem
  calc
    entry.tokens ≤ tokensIn (fun _ => true) credited.tokenMinutes := le_tokensIn hmem
    _ = tokensIn (fun minute => true && minuteInWindow now minute) (growth total writes) :=
      h.conserved _
    _ ≤ tokensIn (fun _ => true) (growth total writes) := tokensIn_le
    _ ≤ highestTotal total writes := tokensIn_growth_le
    _ ≤ MAX_SAFE_INTEGER := highestTotal_le hsafe

/-- A write keeps the account. -/
theorem Measured.next {last w : TokenWrite} {stored : Option StoredTokens}
    (h : Measured total (writes ++ [last]) last.now (last.credited total stored))
    (hsafe : ∀ w ∈ writes ++ [last], total w.tokens ≤ MAX_SAFE_INTEGER)
    (hclock : last.now ≤ w.now) :
    let next := some ((last.credited total stored).stored last.tokens)
    Measured total (writes ++ [last] ++ [w]) w.now (w.credited total next) ∧
      (w.credited total next).tokenMinutes = sortedMinutes total next w.tokens (some w.occurredAt) w.now := by
  intro next
  have hbase : creditedBase total next w.tokens = highestTotal total (writes ++ [last]) := by
    rw [← h.base]
    refine creditedBase_stored _ _ ?_
    rw [h.base]
    exact highestTotal_le hsafe
  have hkept :=
    @keptMinutes_stored (last.credited total stored) last.tokens w.now (h.tokens_le hsafe)
  have hpast : ∀ entry ∈ (last.credited total stored).tokenMinutes, entry.minute ≤ w.now :=
    fun entry hmem =>
    Int.le_trans (h.recent entry hmem).past hclock
  refine measured_of_kept ?_ ?_ ?_ ?_
  · rw [hbase, @highestTotal_concat total (writes ++ [last]) w]
  · show (List.map _ (keptMinutes next w.now)).Nodup
    rw [hkept]
    refine List.Nodup.sublist (List.filter_sublist.map _) ?_
    exact h.nodup
  · intro minute hmem
    rw [hkept, List.mem_map] at hmem
    obtain ⟨entry, hentry, rfl⟩ := hmem
    rw [List.mem_filter, Bool.and_eq_true] at hentry
    exact ⟨(h.recent entry hentry.1).start, hentry.2.1, hpast entry hentry.1⟩
  · intro which
    have hfilter : ((last.credited total stored).tokenMinutes.filter fun entry =>
          minuteInWindow w.now entry.minute && decide (entry.minute ≤ w.now)) =
        (last.credited total stored).tokenMinutes.filter fun entry =>
          minuteInWindow w.now entry.minute := by
      refine List.filter_congr ?_
      intro entry hmem
      rw [decide_eq_true (hpast entry hmem), Bool.and_true]
    -- A minute that is in the window now was in it at the write before.
    have hwindow : ∀ minute,
      (which minute && minuteInWindow w.now minute && minuteInWindow last.now minute) =
        (which minute && minuteInWindow w.now minute) := by
      intro minute
      cases hin : minuteInWindow w.now minute with
      | false => rw [Bool.and_false, Bool.false_and]
      | true => rw [minuteInWindow_of_le hclock hin, Bool.and_true, Bool.and_true]
    have hlast : tokensIn (fun minute => which minute && minuteInWindow w.now minute)
          [⟨w.minute, total w.tokens - highestTotal total (writes ++ [last])⟩] =
        if which w.minute && minuteInWindow w.now w.minute then
          total w.tokens - highestTotal total (writes ++ [last]) else 0 := by
      rw [tokensIn_cons]
      rfl
    rw [hkept, hfilter, tokensIn_filter, h.conserved, hbase,
      growth_concat (List.append_ne_nil_of_right_ne_nil _ (List.cons_ne_nil _ _)),
        tokensIn_append, hlast]
    simp only [hwindow]

/-- The account holds from the first write, which credits nothing. -/
theorem measured_first (w : TokenWrite) :
    Measured total [w] w.now (w.credited total none) ∧
      (w.credited total none).tokenMinutes =
        sortedMinutes total none w.tokens (some w.occurredAt) w.now := by
  refine measured_of_kept ?_ List.nodup_nil ?_ ?_
  · show max (total w.tokens) (total w.tokens) = max 0 (total w.tokens)
    omega
  · intro minute hmem
    exact absurd hmem List.not_mem_nil
  · intro which
    show 0 + (if _ then total w.tokens - total w.tokens else 0) = 0
    rw [Nat.sub_self, ite_self]

theorem measured_run (w : TokenWrite)
    (hsafe : ∀ x ∈ writes ++ [w], total x.tokens ≤ MAX_SAFE_INTEGER)
    (hclock : (writes ++ [w]).Pairwise fun a b => a.now ≤ b.now) :
    Measured total (writes ++ [w]) w.now (w.credited total (writeAll total writes)) ∧
      (w.credited total (writeAll total writes)).tokenMinutes =
        sortedMinutes total (writeAll total writes) w.tokens (some w.occurredAt) w.now := by
  induction writes using List.reverseRecOn generalizing w with
  | nil => exact measured_first w
  | append_singleton prior last ih =>
    have hsafe' : ∀ x ∈ prior ++ [last], total x.tokens ≤ MAX_SAFE_INTEGER := fun x hx =>
      hsafe x (List.mem_append_left _ hx)
    obtain ⟨hclock', -, hcross⟩ := List.pairwise_append.1 hclock
    have hlast : last.now ≤ w.now :=
      hcross last (List.mem_append_right _ List.mem_cons_self) w List.mem_cons_self
    rw [writeAll_concat]
    exact (ih last hsafe' hclock').1.next hsafe' hlast

/-- Whatever drops and recoveries the totals make: the base is the highest total; the minutes are distinct, sorted and
in the window, and the truncation removes none; every growth goes to the entry of its minute, unless the minute is
over; and the entries add up to the growth of the minutes still in the window. -/
theorem tokenMinutes_conserve (total : TokenUsage → Nat) (writes : List TokenWrite) (w : TokenWrite)
    (hsafe : ∀ x ∈ writes ++ [w], total x.tokens ≤ MAX_SAFE_INTEGER)
    (hclock : (writes ++ [w]).Pairwise fun a b => a.now ≤ b.now) :
    let credited := w.credited total (writeAll total writes)
    Measured total (writes ++ [w]) w.now credited ∧
      IsGreatest (Set.range fun x : { x // x ∈ writes ++ [w] } => total x.1.tokens) credited.tokenMinutesBase ∧
      credited.tokenMinutes = sortedMinutes total (writeAll total writes) w.tokens (some w.occurredAt) w.now ∧
      credited.tokenMinutes.length ≤ 31 ∧
      (∀ prior last, writes = prior ++ [last] → ∀ minute,
        tokensIn (fun m => decide (m = minute)) credited.tokenMinutes =
          (if minuteInWindow w.now minute then
            tokensIn (fun m => decide (m = minute)) (last.credited total (writeAll total prior)).tokenMinutes else 0) +
          if w.minute = minute ∧ minuteInWindow w.now minute = true then
            total w.tokens - highestTotal total writes else 0) ∧
      (credited.tokenMinutes.map TokenMinute.tokens).sum =
        tokensIn (minuteInWindow w.now) (growth total (writes ++ [w])) := by
  intro credited
  obtain ⟨h, hwhole⟩ := measured_run w hsafe hclock
  refine ⟨h, ?_, hwhole, ?_, ?_, ?_⟩
  · rw [h.base]
    constructor
    · obtain ⟨x, hx, heq⟩ := @highestTotal_mem total (writes ++ [w])
        (List.append_ne_nil_of_right_ne_nil _ (List.cons_ne_nil _ _))
      exact ⟨⟨x, hx⟩, heq⟩
    · rintro n ⟨⟨x, hx⟩, rfl⟩
      exact le_highestTotal hx
  · have hle := length_le_of_recent h.nodup fun minute hmem => by
      obtain ⟨entry, hentry, rfl⟩ := List.mem_map.1 hmem
      exact h.recent entry hentry
    rw [List.length_map] at hle
    exact hle
  · rintro prior last rfl minute
    obtain ⟨hclock', -, hcross⟩ := List.pairwise_append.1 hclock
    have hlast : last.now ≤ w.now :=
      hcross last (List.mem_append_right _ List.mem_cons_self) w List.mem_cons_self
    obtain ⟨hbefore, -⟩ :=
      measured_run last (fun x hx => hsafe x (List.mem_append_left _ hx)) hclock'
    rw [h.conserved, hbefore.conserved,
      growth_concat (List.append_ne_nil_of_right_ne_nil _ (List.cons_ne_nil _ _)), tokensIn_append,
        tokensIn_cons]
    rw [tokensIn_at (growth total (prior ++ [last])), tokensIn_at (growth total (prior ++ [last]))]
    have hend : tokensIn (fun m => decide (m = minute) && minuteInWindow w.now m) [] = 0 := rfl
    have hgrown : (decide (w.minute = minute) && minuteInWindow w.now w.minute) = true ↔
        w.minute = minute ∧ minuteInWindow w.now minute = true := by
      rw [Bool.and_eq_true, decide_eq_true_eq]
      refine and_congr_right ?_
      intro heq
      rw [heq]
    rw [hend, Nat.add_zero]
    simp only [hgrown]
    by_cases hin : minuteInWindow w.now minute = true
    · rw [if_pos hin, if_pos hin, if_pos (minuteInWindow_of_le hlast hin)]
    · rw [if_neg hin, if_neg hin]
  · have hall := h.conserved fun _ => true
    simp only [Bool.true_and] at hall
    rw [← hall]
    unfold tokensIn
    rw [List.filter_true]

end Runs

namespace Sample

def inputTokens (n : Nat) : TokenUsage := ⟨n, 0, 0, 0⟩

/-- A session whose summary falls back to zero. -/
def dippedWrites : List TokenWrite := [⟨inputTokens 500, 0, 0⟩, ⟨inputTokens 0, 30000, 30000⟩]

def recoveredWrite : TokenWrite := ⟨inputTokens 520, 90000, 95000⟩

end Sample

theorem tokenMinutes_conserve_recovered :
    Sample.recoveredWrite.credited totalTokens (writeAll totalTokens Sample.dippedWrites) =
      ⟨[⟨60000, 20⟩], 520⟩ ∧
      Measured totalTokens (Sample.dippedWrites ++ [Sample.recoveredWrite]) 95000
        (Sample.recoveredWrite.credited totalTokens (writeAll totalTokens Sample.dippedWrites)) :=
  ⟨by decide +kernel,
    (tokenMinutes_conserve totalTokens Sample.dippedWrites Sample.recoveredWrite (by decide) (by decide)).1⟩

end AgentLcars
