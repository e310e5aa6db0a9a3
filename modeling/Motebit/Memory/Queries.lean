/-
  Motebit.Memory.Queries — THE LIMITED MEMORY QUERY.

  Translated from `SqliteMemoryStorage.queryNodes` of `packages/persistence/src/index.ts`.  The
  decayed confidence is any function of the row and the clock; rows accessed at one time are
  fetched as they stand in the table.

  Main result: `queryNodes_firstOf_iff`.
-/

import Mathlib.Algebra.Order.Ring.Rat
import Motebit.Lib.Json

namespace Motebit.Memory

open Motebit.Lib List

/-! ## §1. The query -/

inductive SensitivityLevel where
  | none | personal | medical | financial | secret
  deriving DecidableEq

structure MemoryNode where
  motebit_id : Text
  confidence : ℚ
  sensitivity : SensitivityLevel
  created_at : ℚ
  last_accessed : ℚ
  half_life : ℚ
  tombstoned : Bool
  pinned : Bool
  deriving DecidableEq

structure MemoryQuery where
  motebit_id : Text
  min_confidence : Option ℚ
  sensitivity_filter : Option (List SensitivityLevel)
  limit : Option Nat
  include_tombstoned : Option Bool
  pinned : Option Bool

variable (decayed : MemoryNode → ℚ → ℚ) (rows : List MemoryNode) (now : ℚ) (query : MemoryQuery)

namespace MemoryQuery

def needsAppFilter : Bool := query.min_confidence.isSome || query.sensitivity_filter.isSome

/-- The conditions of the SQL. -/
def selects (n : MemoryNode) : Bool :=
  n.motebit_id == query.motebit_id && (query.include_tombstoned == some true || !n.tombstoned) &&
    query.pinned.all (n.pinned == ·)

def confident (n : MemoryNode) : Bool := query.min_confidence.all (· ≤ decayed n now)

def allowed (n : MemoryNode) : Bool := query.sensitivity_filter.all (·.contains n.sensitivity)

/-- The selected rows, `ORDER BY last_accessed DESC`. -/
def ordered : List MemoryNode :=
  sortOn (fun n => OrderDual.toDual n.last_accessed) (rows.filter query.selects)

end MemoryQuery

open MemoryQuery

def fetchCap (limit : Nat) : Nat := if query.needsAppFilter then max (limit * 8) 200 else limit

def queryNodes : List MemoryNode :=
  let fetched := match query.limit with
    | none => rows.filter query.selects
    | some limit => (query.ordered rows).take (fetchCap query limit)
  let results := (fetched.filter (query.confident decayed now)).filter query.allowed
  match query.limit with
  | none => results
  | some limit => results.take limit

/-! ## §2. What the fetch leaves out -/

/-- The first of some nodes, the last accessed first. -/
def FirstOf (limit : Nat) (nodes result : List MemoryNode) : Prop :=
  ∃ all : List MemoryNode, all ~ nodes ∧ all.Pairwise (fun a b => b.last_accessed ≤ a.last_accessed) ∧
    result = all.take limit

/-- The node satisfies what the query asks beyond the SQL. -/
def passes (n : MemoryNode) : Bool := query.allowed n && query.confident decayed now n

variable {limit cap : Nat} {p : MemoryNode → Bool} {l nodes : List MemoryNode}

theorem firstOf_take_iff (hsorted : l.Pairwise fun a b => b.last_accessed ≤ a.last_accessed)
    (hperm : nodes ~ l.filter p) : FirstOf limit nodes (((l.take cap).filter p).take limit) ↔
      limit ≤ (l.take cap).countP p ∨ ∀ n ∈ l.drop cap, p n = false := by
  have hsplit : l.filter p = (l.take cap).filter p ++ (l.drop cap).filter p := by
    rw [← filter_append, take_append_drop]
  rw [countP_eq_length_filter]
  constructor
  · rintro ⟨all, hall, -, heq⟩
    have hlen := congrArg length hsplit
    have htake := congrArg length heq
    rw [length_append, ← (hall.trans hperm).length_eq] at hlen
    rw [length_take, length_take] at htake
    -- what the answer lacks, no row after the fetched ones can give
    by_cases hle : limit ≤ ((l.take cap).filter p).length
    · exact .inl hle
    have hnil : ((l.drop cap).filter p).length = 0 := by omega
    have hnone := filter_eq_nil_iff.mp (length_eq_zero_iff.mp hnil)
    exact .inr fun n hn => Bool.eq_false_iff.mpr (hnone n hn)
  · intro h
    refine ⟨l.filter p, hperm.symm, hsorted.filter p, ?_⟩
    rcases h with hle | hnone
    · rw [hsplit, take_append_of_le_length hle]
    · have hnil : (l.drop cap).filter p = [] :=
        filter_eq_nil_iff.mpr fun n hn => Bool.eq_false_iff.mp (hnone n hn)
      rw [hsplit, hnil, append_nil]

/-- The limited query answers the first nodes that satisfy all its conditions **if and only if** it
    filters nothing after the fetch, or enough of the fetched rows pass the filter, or no row that
    was not fetched does. -/
theorem queryNodes_firstOf_iff (limit : Nat) :
    FirstOf limit (rows.filter fun n => passes decayed now query n && query.selects n)
        (queryNodes decayed rows now { query with limit := some limit }) ↔
      query.needsAppFilter = false ∨
      limit ≤ ((query.ordered rows).take (max (limit * 8) 200)).countP (passes decayed now query) ∨
      ∀ n ∈ (query.ordered rows).drop (max (limit * 8) 200), passes decayed now query n = false := by
  have hperm : query.ordered rows ~ rows.filter query.selects := sortOn_perm _ _
  have hsorted : (query.ordered rows).Pairwise fun a b => b.last_accessed ≤ a.last_accessed :=
    sortOn_pairwise (fun n : MemoryNode => OrderDual.toDual n.last_accessed) _
  have hfilter := hperm.filter (passes decayed now query)
  rw [filter_filter] at hfilter
  have hanswer : queryNodes decayed rows now { query with limit := some limit } =
      (((query.ordered rows).take (fetchCap query limit)).filter
        (passes decayed now query)).take limit :=
    congrArg (take limit) filter_filter
  rw [hanswer, firstOf_take_iff hsorted hfilter.symm, fetchCap]
  split
  · next hneeds => simp [hneeds]
  next hneeds =>
  -- every row passes
  obtain ⟨hmin, hfiltered⟩ : query.min_confidence = none ∧ query.sensitivity_filter = none := by
    simpa [needsAppFilter] using hneeds
  have hpasses : ∀ n, passes decayed now query n = true := by
    simp [passes, allowed, confident, hmin, hfiltered]
  refine iff_of_true ?_ (.inl (Bool.eq_false_iff.mpr hneeds))
  by_cases hle : limit ≤ (query.ordered rows).length
  · left
    rw [countP_eq_length.mpr fun n _ => hpasses n, length_take]
    omega
  · right
    rw [drop_eq_nil_of_le (by omega)]
    simp

def heldNode (sensitivity : SensitivityLevel) (last_accessed : ℚ) : MemoryNode :=
  ⟨[], 1, sensitivity, 0, last_accessed, 1, false, false⟩

def openQuery : MemoryQuery := ⟨[], none, some [.none], some 1, none, none⟩

/-- Behind two hundred rows of another sensitivity the one row asked for is not fetched. -/
theorem queryNodes_short :
    let rows := replicate 200 (heldNode .secret 2) ++ [heldNode .none 1]
    ¬ FirstOf 1 (rows.filter fun n => passes (fun _ _ => 0) 0 openQuery n && openQuery.selects n)
      (queryNodes (fun _ _ => 0) rows 0 openQuery) := by
  intro rows h
  obtain ⟨all, hall, -, heq⟩ := h
  have hlen := hall.length_eq
  have hanswer : queryNodes (fun _ _ => 0) rows 0 openQuery = [] := by decide +kernel
  have hone : (rows.filter fun n =>
      passes (fun _ _ => 0) 0 openQuery n && openQuery.selects n).length = 1 := by decide +kernel
  rw [hanswer] at heq
  have hnil := congrArg length heq
  simp [hlen, hone] at hnil

end Motebit.Memory
