import Mathlib.Data.String.Basic
import AgentLcars.Lib.StableSorting

/-!
# Pages of sessions

`listSessionDocs` of `libs/telemetry/src/server/store.ts`: the newest sessions of a stream.

* `insertDoc`: where a document goes in the page so far.
* `listSessionDocs_eq`: the page is what sorting the whole stream and taking its first documents gives.
-/

namespace AgentLcars

open Sorting

def DEFAULT_LIST_LIMIT : Int := 100

def MAX_LIST_LIMIT : Int := 200

/-- The limit of a page, clamped. -/
def pageLimit (limit : Option Int) : Nat := (min (max 1 (limit.getD DEFAULT_LIST_LIMIT)) MAX_LIST_LIMIT).toNat

/-- A page has room for one to two hundred documents, for a hundred unless a number is asked for. -/
theorem pageLimit_bounds (limit : Option Int) : 1 ≤ pageLimit limit ∧ pageLimit limit ≤ 200 ∧
    pageLimit none = 100 ∧ ∀ n : Int, 1 ≤ n → n ≤ 200 → (pageLimit (some n) : Int) = n := by
  refine ⟨?_, ?_, rfl, fun n hone hmost => ?_⟩ <;>
    simp only [pageLimit, MAX_LIST_LIMIT, Option.getD_some] <;> omega

/-- What the store computes with the stream: a stored document checked, its activity clock, and
`localeCompare`. -/
structure SessionPageEnv (ρ δ : Type) where
  parseSessionDoc : ρ → Except String δ
  lastActivityAt : δ → String
  localeCompare : String → String → Int

variable {ρ δ : Type} (env : SessionPageEnv ρ δ)

/-- The first document is not older than the second. -/
def SessionPageEnv.notOlder (a b : δ) : Bool :=
  0 ≤ env.localeCompare (env.lastActivityAt a) (env.lastActivityAt b)

/-- One document of the stream. -/
def insertDoc (limit : Nat) (docs : List δ) (doc : δ) : List δ :=
  let low := search (fun middle => (docs[middle]?.map fun other => !env.notOlder other doc).getD false) 0 docs.length
  if low < limit then
    let docs := docs.take low ++ doc :: docs.drop low
    if docs.length > limit then docs.dropLast else docs
  else docs

def listSessionDocs (limit : Option Int) (snapshots : List ρ) : Except String (List δ) :=
  snapshots.foldlM (fun docs snapshot => do
    let doc ← env.parseSessionDoc snapshot
    pure (insertDoc env (pageLimit limit) docs doc)) []

/-- `localeCompare` orders texts, with ties. -/
structure LocaleOrder (compare : String → String → Int) : Prop where
  converse : ∀ a b, 0 ≤ compare a b ↔ compare b a ≤ 0
  total : ∀ a b, compare a b ≤ 0 ∨ compare b a ≤ 0
  trans : ∀ a b c, compare a b ≤ 0 → compare b c ≤ 0 → compare a c ≤ 0

variable {env}

theorem LocaleOrder.notOlder (h : LocaleOrder env.localeCompare) : TotalPreorder env.notOlder where
  trans a b c hab hbc := by
    unfold SessionPageEnv.notOlder at *
    rw [decide_eq_true_iff, h.converse] at *
    exact h.trans _ _ _ hbc hab
  total a b := by
    unfold SessionPageEnv.notOlder
    rw [Bool.or_eq_true, decide_eq_true_iff, decide_eq_true_iff, h.converse, h.converse]
    exact (h.total _ _).symm

/-- The first documents of the page with one more. -/
theorem insertDoc_eq (h : LocaleOrder env.localeCompare) {limit : Nat} {docs : List δ}
    (hsorted : docs.Pairwise fun a b => env.notOlder a b = true) (hlimit : docs.length ≤ limit) (doc : δ) :
    insertDoc env limit docs doc = (insertAfter env.notOlder doc docs).take limit := by
  have hlow : search (fun middle => (docs[middle]?.map fun other => !env.notOlder other doc).getD false) 0
      docs.length = (docs.takeWhile (env.notOlder · doc)).length :=
    search_eq_length (q := (env.notOlder · doc)) fun y => not_le_of_mem_dropWhile h.notOlder hsorted
  have hwhole : docs.takeWhile (env.notOlder · doc) ++ docs.dropWhile (env.notOlder · doc) = docs :=
    List.takeWhile_append_dropWhile
  have hparts : ∀ a b : List δ, a ++ b = docs → docs.take a.length = a ∧ docs.drop a.length = b := by
    rintro a b rfl
    exact ⟨List.take_left, List.drop_left⟩
  obtain ⟨htake, hdrop⟩ := hparts _ _ hwhole
  have hinsert : docs.take (docs.takeWhile (env.notOlder · doc)).length ++
      doc :: docs.drop (docs.takeWhile (env.notOlder · doc)).length = insertAfter env.notOlder doc docs := by
    rw [htake, hdrop]
    rfl
  have hlength : (insertAfter env.notOlder doc docs).length = docs.length + 1 := by
    unfold insertAfter
    have hsum := congrArg List.length hwhole
    rw [List.length_append] at hsum
    rw [List.length_append, List.length_cons]
    omega
  unfold insertDoc
  dsimp only
  rw [hlow, hinsert, hlength]
  split_ifs with hroom hlong
  · rw [List.dropLast_eq_take, hlength]
    congr 1
    omega
  · exact (List.take_of_length_le (by omega)).symm
  · -- everything in a full page is newer
    have hall : docs.takeWhile (env.notOlder · doc) = docs :=
      (List.takeWhile_prefix _).eq_of_length_le (by omega)
    have hfull : docs.length = limit := by
      rw [hall] at hroom
      omega
    unfold insertAfter
    rw [hall, ← hfull, List.take_left]

theorem foldlM_insertDoc (h : LocaleOrder env.localeCompare) (limit : Nat) (snapshots : List ρ) {before docs : List δ}
    (hdocs : StableSort env.notOlder before docs) :
    snapshots.foldlM (fun docs snapshot => do
        let doc ← env.parseSessionDoc snapshot
        pure (insertDoc env limit docs doc)) (docs.take limit) =
      (do
        let more ← snapshots.mapM env.parseSessionDoc
        pure (((before ++ more).mergeSort env.notOlder).take limit) : Except String (List δ)) := by
  induction snapshots generalizing before docs with
  | nil =>
    rw [List.foldlM_nil, List.mapM_nil, pure_bind, List.append_nil,
      hdocs.unique h.notOlder (stableSort_mergeSort h.notOlder before)]
  | cons snapshot snapshots ih =>
    rw [List.foldlM_cons, List.mapM_cons]
    cases hparse : env.parseSessionDoc snapshot with
    | error message => rfl
    | ok doc =>
      have hstep : insertDoc env limit (docs.take limit) doc = (insertAfter env.notOlder doc docs).take limit := by
        rw [insertDoc_eq h (hdocs.sorted.sublist (List.take_sublist _ _)) (List.length_take_le _ _),
          take_insertAfter]
      have hrest := ih (hdocs.insertAfter h.notOlder doc)
      show snapshots.foldlM _ (insertDoc env limit (docs.take limit) doc) = _
      rw [hstep, hrest]
      cases snapshots.mapM env.parseSessionDoc with
      | error message => rfl
      | ok more =>
        have hwhole : before ++ [doc] ++ more = before ++ doc :: more := List.append_assoc ..
        show Except.ok _ = Except.ok _
        rw [hwhole]

/-- The page holds the first documents of the stable sort of the whole stream, newest first; a stream with a
malformed document is refused. -/
theorem listSessionDocs_eq (h : LocaleOrder env.localeCompare) (limit : Option Int) (snapshots : List ρ) :
    listSessionDocs env limit snapshots = (do
      let docs ← snapshots.mapM env.parseSessionDoc
      pure ((docs.mergeSort env.notOlder).take (pageLimit limit))) := by
  have hnil : StableSort env.notOlder [] [] := ⟨List.Perm.refl _, List.Pairwise.nil, fun _ => rfl⟩
  have hrun := foldlM_insertDoc h (pageLimit limit) snapshots hnil
  rw [List.take_nil] at hrun
  exact hrun

namespace Sample

/-- Documents that are their clocks, compared as texts. -/
def pageEnv : SessionPageEnv String String where
  parseSessionDoc := .ok
  lastActivityAt := id
  localeCompare a b := if a < b then -1 else if a = b then 0 else 1

theorem pageOrder : LocaleOrder pageEnv.localeCompare := by
  have hle : ∀ a b, pageEnv.localeCompare a b ≤ 0 ↔ a ≤ b := by
    intro a b
    show (if a < b then (-1 : Int) else if a = b then 0 else 1) ≤ 0 ↔ a ≤ b
    split_ifs with hlt heq
    · exact iff_of_true (by decide) hlt.le
    · exact iff_of_true (by decide) heq.le
    · exact iff_of_false (by decide) fun h => (lt_or_eq_of_le h).elim hlt heq
  have hge : ∀ a b, 0 ≤ pageEnv.localeCompare a b ↔ b ≤ a := by
    intro a b
    show 0 ≤ (if a < b then (-1 : Int) else if a = b then 0 else 1) ↔ b ≤ a
    split_ifs with hlt heq
    · exact iff_of_false (by decide) (not_le.2 hlt)
    · exact iff_of_true (by decide) heq.ge
    · exact iff_of_true (by decide) (not_lt.1 hlt)
  refine ⟨fun a b => (hge a b).trans (hle b a).symm, fun a b => ?_, fun a b c hab hbc => ?_⟩
  · rw [hle, hle]
    exact le_total a b
  · rw [hle] at *
    exact hab.trans hbc

end Sample

open Sample in
/-- The two newest of three documents. -/
theorem listSessionDocs_eq_texts :
    let snapshots := ["2026-03-01T00:00:00Z", "2026-05-01T00:00:00Z", "2026-04-01T00:00:00Z"]
    listSessionDocs pageEnv (some 2) snapshots = .ok ["2026-05-01T00:00:00Z", "2026-04-01T00:00:00Z"] ∧
      snapshots.mergeSort pageEnv.notOlder =
        ["2026-05-01T00:00:00Z", "2026-04-01T00:00:00Z", "2026-03-01T00:00:00Z"] := by
  intro snapshots
  have hpage : listSessionDocs pageEnv (some 2) snapshots =
      .ok ["2026-05-01T00:00:00Z", "2026-04-01T00:00:00Z"] := by decide +kernel
  have hwhole : listSessionDocs pageEnv none snapshots =
      .ok ["2026-05-01T00:00:00Z", "2026-04-01T00:00:00Z", "2026-03-01T00:00:00Z"] := by decide +kernel
  refine ⟨hpage, ?_⟩
  have hsorted := (listSessionDocs_eq pageOrder none snapshots).symm.trans hwhole
  have hlength : (snapshots.mergeSort pageEnv.notOlder).take (pageLimit none) =
      snapshots.mergeSort pageEnv.notOlder :=
    List.take_of_length_le (by rw [List.length_mergeSort]; decide)
  rw [← hlength]
  exact Except.ok.inj hsorted

end AgentLcars
