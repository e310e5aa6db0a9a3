/-
  Motebit.Routing.Replay — A TRANSCRIPT REPLAYS.

  The replay ranks over another star: around its own root, with the edges in the order of the
  transcript.  That order is stable, so of two candidates with one id the same one stands last,
  and the rows of the two stars agree.

  Main results: `checkDraw_freezeCandidate`, `transcript_replays`.
-/

import Mathlib.Data.Rat.Floor
import Motebit.Routing.Star

namespace Motebit.Routing

open Motebit.Lib Motebit.Lib.Json Motebit.Traversal List

variable {K : Type} [Field K] [LinearOrder K]

/-! ## §1. The draws -/

section

variable [IsStrictOrderedRing K]

theorem clampStrength_clampStrength (x : K) : clampStrength (clampStrength x) = clampStrength x := by
  have hpos : 0 ≤ clampStrength x := le_min zero_le_one (le_max_left 0 x)
  have hle : clampStrength x ≤ 1 := min_le_left 1 _
  show min 1 (max 0 (clampStrength x)) = clampStrength x
  rw [max_eq_right hpos, min_eq_right hle]

theorem boosted_pos {base : K} (h : 0 < base) : 0 < min 1 (base * BOND_EXPLORE_BOOST) := by
  apply lt_min one_pos
  unfold BOND_EXPLORE_BOOST
  exact mul_pos h two_pos

/-- The strength at which a worker is explored. -/
def effective (base : K) (bonded : Bool) : K :=
  if bonded then min 1 (base * BOND_EXPLORE_BOOST) else base

theorem effective_pos {base : K} (h : 0 < base) (bonded : Bool) : 0 < effective base bonded := by
  unfold effective
  split
  · exact boosted_pos h
  · exact h

theorem exploratoryQualityDetail_of_pos [FloorRing K] (thompsonDraw : K → K → Text → K)
    (c : RankableWorker K) {explore : ExplorationConfig K} (capability : Option Text)
    (h : 0 < clampStrength (explore.strength.getD 1)) :
    let d := exploratoryQualityDetail thompsonDraw c explore capability
    let draw := thompsonDraw d.alpha d.beta (drawSeed explore.seed c.motebit_id)
    let mean := d.alpha / (d.alpha + d.beta)
    d.theta = some draw ∧
      d.quality = mean + effective (clampStrength (explore.strength.getD 1)) c.bonded *
        (draw - mean) := by
  have heff := effective_pos h c.bonded
  unfold effective at heff ⊢
  unfold exploratoryQualityDetail
  rw [if_neg (not_le.mpr heff)]
  exact ⟨rfl, rfl⟩

/-- **The draw of each frozen candidate is found again.** -/
theorem checkDraw_freezeCandidate [FloorRing K] (thompsonDraw : K → K → Text → K)
    {explore : Option (ExplorationConfig K)} {basis : RoutingDecisionBasis K}
    (hboost : basis.bond_explore_boost = BOND_EXPLORE_BOOST)
    (hexplore : ∀ e, explore = some e → basis.seed = e.seed ∧
      basis.strength = clampStrength (e.strength.getD 1) ∧
      0 < clampStrength (e.strength.getD 1)) (capability : Option Text) (c : RankableWorker K) :
    checkDraw thompsonDraw basis (freezeCandidate thompsonDraw explore capability c) = none := by
  cases explore with
  | none => rfl
  | some e =>
    obtain ⟨hseed, hstrength, hactive⟩ := hexplore e rfl
    obtain ⟨htheta, hquality⟩ := exploratoryQualityDetail_of_pos thompsonDraw c capability hactive
    have heff := effective_pos hactive c.bonded
    unfold effective at heff hquality
    unfold checkDraw freezeCandidate
    dsimp only
    rw [hboost, hstrength, hseed, clampStrength_clampStrength, if_pos heff, ← hquality]
    simp [htheta]

end

/-! ## §2. The edges -/

def selfEdges [FloorRing K] (thompsonDraw : K → K → Text → K)
    (explore : Option (ExplorationConfig K)) (capability : Option Text)
    (candidates : List (RankableWorker K)) : List (Text × RouteWeight K) :=
  (candidates.filter fun c => !c.blocked).map fun c =>
    (c.motebit_id, starWeight (trustAxis thompsonDraw explore capability c)
      (c.unitCost.getD 0) DEFAULT_LATENCY_MS (reliabilityAxis thompsonDraw explore capability c))

def frozenEdge (c : TranscriptCandidate K) : Text × RouteWeight K :=
  (c.motebit_id, starWeight c.trust_axis (c.unit_cost.getD 0) DEFAULT_LATENCY_MS c.reliability_axis)

theorem map_frozenEdge [FloorRing K] (thompsonDraw : K → K → Text → K)
    (explore : Option (ExplorationConfig K)) (capability : Option Text)
    (candidates : List (RankableWorker K)) : ((candidates.filter fun c => !c.blocked).map
      (freezeCandidate thompsonDraw explore capability)).map frozenEdge
        = selfEdges thompsonDraw explore capability candidates := by
  unfold selfEdges
  rw [map_map]
  apply map_congr_left
  intro c _
  cases explore <;> rfl

/-- **A stable order by id leaves the row as it is**: of each id the same edge stands last. -/
theorem get_starRow_sortOn (key : Text → Nat) (edges : List (Text × RouteWeight K)) (id : Text) :
    (starRow (sortOn (fun e => key e.1) edges)).get id = (starRow edges).get id := by
  have hconstant : (edges.filter fun e => e.1 = id).Pairwise fun a b => key a.1 ≤ key b.1 := by
    rw [pairwise_iff_forall_sublist]
    intro a b hsub
    have ha : a.1 = id := by simpa using of_mem_filter (hsub.subset mem_cons_self)
    have hb : b.1 = id := by simpa using of_mem_filter (hsub.subset (by simp))
    rw [ha, hb]
  have hstable : (sortOn (fun e => key e.1) edges).filter (fun e => e.1 = id)
      = edges.filter fun e => e.1 = id := by
    rw [filter_sortOn]
    exact hconstant.insertionSort_eq
  unfold starRow
  rw [JsMap.get_foldl_pairs, JsMap.get_foldl_pairs, hstable]

theorem map_frozenEdge_sortOn [FloorRing K] (thompsonDraw : K → K → Text → K)
    (explore : Option (ExplorationConfig K)) (capability : Option Text)
    (candidates : List (RankableWorker K)) (key : Text → Nat) :
    (sortOn (fun c => key c.motebit_id) ((candidates.filter fun c => !c.blocked).map
      (freezeCandidate thompsonDraw explore capability))).map frozenEdge
        = sortOn (fun e => key e.1) (selfEdges thompsonDraw explore capability candidates) := by
  rw [← map_frozenEdge]
  have hkey : ∀ c : TranscriptCandidate K, key (frozenEdge c).1 = key c.motebit_id := fun _ => rfl
  exact (@sortOn_map (TranscriptCandidate K) Nat _ (Text × RouteWeight K)
    (fun c => key c.motebit_id) (fun e => key e.1) frozenEdge hkey _).symm

/-! ## §3. The replay -/

/-- A basis whose draws are found again and whose star ranks its winner first is consistent. -/
theorem recompute_consistent (localeCompare : Text → Text → Int)
    (thompsonDraw : K → K → Text → K) {basis : RoutingDecisionBasis K}
    (hversion : basis.algorithm_version = WORKER_SELECTION_ALGORITHM_VERSION)
    (hlatency : basis.default_latency_ms = DEFAULT_LATENCY_MS) (hsome : basis.candidates ≠ [])
    (hdraws : ∀ c ∈ basis.candidates, checkDraw thompsonDraw basis c = none)
    (hwinner : (bestFirst (rankReachableAgents localeCompare
      (starGraph recomputeRoot (basis.candidates.map frozenEdge)) recomputeRoot
        basis.weights.route)).head?.map RankedAgent.motebit_id = some basis.winner_motebit_id) :
    recomputeRoutingDecision localeCompare thompsonDraw basis
      = ⟨true, none, some basis.winner_motebit_id⟩ := by
  have hchain : basis.candidates.findSome? (checkDraw thompsonDraw basis) = none :=
    findSome?_eq_none_iff.mpr hdraws
  unfold frozenEdge at hwinner
  unfold recomputeRoutingDecision
  rw [if_neg (not_not.mpr hversion), if_neg hsome, hchain, hlatency]
  dsimp only
  rw [hwinner, if_neg (not_not.mpr rfl)]

/-- **A transcript of the selector replays**: it is consistent, with the selector's winner. -/
theorem transcript_replays [IsStrictOrderedRing K] [FloorRing K]
    (localeCompare : Text → Text → Int) (thompsonDraw : K → K → Text → K) (selfId : Text)
    (candidates : List (RankableWorker K)) (opts : SelectionOptions K)
    (hself : ∀ c ∈ candidates, c.motebit_id ≠ selfId)
    (hroot : ∀ c ∈ candidates, c.motebit_id ≠ recomputeRoot)
    {basis : RoutingDecisionBasis K} (hbasis : (rankWorkersWithBasis localeCompare thompsonDraw
      selfId candidates opts).2 = some basis) :
    ∃ winner, (rankWorkersWithBasis localeCompare thompsonDraw selfId candidates opts).1
        = some winner ∧
      recomputeRoutingDecision localeCompare thompsonDraw basis
        = ⟨true, none, some winner.motebit_id⟩ := by
  have hids : ∀ e ∈ selfEdges thompsonDraw (activeExplore opts) opts.capability candidates,
      ∃ c ∈ candidates, e.1 = c.motebit_id := by
    intro e he
    obtain ⟨c, hc, rfl⟩ := mem_map.mp he
    exact ⟨c, mem_of_mem_filter hc, rfl⟩
  have hselfEdges : ∀ e ∈ selfEdges thompsonDraw (activeExplore opts) opts.capability candidates,
      e.1 ≠ selfId := by
    intro e he
    obtain ⟨c, hc, heq⟩ := hids e he
    rw [heq]
    exact hself c hc
  have hranking : rankWorkers localeCompare thompsonDraw selfId candidates opts
      = (bestFirst (rankReachableAgents localeCompare (starGraph selfId
          (selfEdges thompsonDraw (activeExplore opts) opts.capability candidates)) selfId
        (opts.weights.getD DEFAULT_WEIGHTS).route)).map RankedAgent.ranking := rfl
  unfold rankWorkersWithBasis at hbasis ⊢
  cases hrank : rankWorkers localeCompare thompsonDraw selfId candidates opts with
  | nil =>
    rw [hrank] at hbasis
    cases hbasis
  | cons winner rest =>
    rw [hrank] at hbasis hranking
    cases hbasis
    refine ⟨winner, rfl, ?_⟩
    have hreplayed := map_frozenEdge_sortOn thompsonDraw (activeExplore opts) opts.capability
      candidates fun id => ((rankIndex (winner :: rest)).get id).getD MAX_SAFE_INTEGER
    apply recompute_consistent
    · rfl
    · rfl
    · -- a ranking of no edges has no winner
      intro hnil
      dsimp only at hnil
      rw [hnil] at hreplayed
      have hnone : selfEdges thompsonDraw (activeExplore opts) opts.capability candidates = [] :=
        ((sortOn_perm _ _).symm.trans (List.Perm.of_eq hreplayed.symm)).eq_nil
      rw [hnone] at hranking hselfEdges
      obtain ⟨agent, hagent, -⟩ := mem_map.mp (hranking ▸ mem_cons_self)
      obtain ⟨id, route, hroute, -⟩ :=
        (mem_rankReachableAgents_star hselfEdges).mp (mem_sortOn.mp hagent)
      cases hroute
    · intro c hc
      obtain ⟨worker, -, rfl⟩ := mem_map.mp (mem_sortOn.mp hc)
      refine checkDraw_freezeCandidate thompsonDraw rfl (fun e he => ?_) opts.capability worker
      rw [he]
      obtain ⟨hopts, hactive⟩ := Option.filter_eq_some_iff.mp he
      rw [hopts]
      exact ⟨rfl, rfl, by simpa using hactive⟩
    · dsimp only
      rw [hreplayed, ← bestFirst_star_eq hselfEdges ?_ fun id =>
        (get_starRow_sortOn (fun id =>
          ((rankIndex (winner :: rest)).get id).getD MAX_SAFE_INTEGER) _ id).symm]
      · have hhead := congrArg (fun l => (l.head?).map WorkerRanking.motebit_id) hranking
        simpa [head?_map, Function.comp_def, RankedAgent.ranking] using hhead.symm
      · intro e he
        obtain ⟨c, hc, heq⟩ := hids e (mem_sortOn.mp he)
        rw [heq]
        exact hroot c hc

/-- A newcomer, a bonded one, and the newcomer again as a verified worker. -/
def duo : List (RankableWorker ℚ) :=
  [⟨toText ['a'], none, some 2, false⟩, ⟨toText ['b'], none, some 1, true⟩,
    ⟨toText ['a'], some ⟨.verified, some 3, some 1, none⟩, some 5, false⟩]

def halfExplored : SelectionOptions ℚ := ⟨none, some ⟨toText ['j'], some (1 / 2)⟩, none⟩

theorem transcript_replays_duo : ∃ basis, (rankWorkersWithBasis (fun _ _ => 0)
      (fun _ _ _ => 1 / 2) (toText ['s']) duo halfExplored).2 = some basis ∧
    recomputeRoutingDecision (fun _ _ => 0) (fun _ _ _ => 1 / 2) basis
      = ⟨true, none, some (toText ['a'])⟩ := by
  have hsome : (rankWorkersWithBasis (fun _ _ => 0) (fun _ _ _ => 1 / 2) (toText ['s']) duo
      halfExplored).2.isSome = true := by decide +kernel
  have hfirst : (rankWorkersWithBasis (fun _ _ => 0) (fun _ _ _ => 1 / 2) (toText ['s']) duo
      halfExplored).1.map WorkerRanking.motebit_id = some (toText ['a']) := by decide +kernel
  obtain ⟨basis, hbasis⟩ := Option.isSome_iff_exists.mp hsome
  obtain ⟨winner, hwinner, hreplay⟩ := transcript_replays (fun _ _ => 0) (fun _ _ _ => 1 / 2)
    (toText ['s']) duo halfExplored (by decide) (by decide) hbasis
  rw [hwinner] at hfirst
  have hwinner : winner.motebit_id = toText ['a'] := Option.some.inj hfirst
  rw [hwinner] at hreplay
  exact ⟨basis, hbasis, hreplay⟩

end Motebit.Routing
