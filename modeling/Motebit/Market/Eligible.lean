/-
  Motebit.Market.Eligible — WHO IS RANKED, and what a peer edge on a supplied leg changes.

  A profile gives a leg only to an eligible candidate, so a planned route ends at another node
  only by a peer edge.  A leg through a peer keeps its metrics beside a peer edge of the same
  hop, but not its custody.

  Main results: `sound_pareto`, `unchanged_iff`.
-/

import Motebit.Market.Hops

namespace Motebit.Market

open Motebit.Lib Motebit.Lib.Json Motebit.Traversal Motebit.Routing List

variable {K : Type} [Field K] [LinearOrder K]

/-! ## §1. The rankings list what the core ranks -/

section

variable {τ : Type} {score : τ → RouteScore K} {select : τ → τ}

theorem mem_swap {l : List τ} {i j : Nat} {a b x : τ} (hi : l[i]? = some a) (hj : l[j]? = some b) :
    x ∈ (l.set i b).set j a ↔ x ∈ l := by
  have hil := (List.getElem?_eq_some_iff.mp hi).1
  have hjl := (List.getElem?_eq_some_iff.mp hj).1
  simp only [mem_iff_getElem?, getElem?_set, length_set]
  constructor
  · rintro ⟨k, hk⟩
    split at hk
    · exact ⟨i, by simpa [hjl, hi] using hk⟩
    · split at hk
      · exact ⟨j, by simpa [hil, hj] using hk⟩
      · exact ⟨k, hk⟩
  · rintro ⟨k, hk⟩
    by_cases hki : k = i
    · exact ⟨j, by simpa [hjl, ← hk, hki] using hi.symm⟩
    · by_cases hkj : k = j
      · refine ⟨i, ?_⟩
        by_cases hij : j = i
        · exact absurd (hkj.trans hij) hki
        · simpa [hij, hil, ← hk, hkj] using hj.symm
      · exact ⟨k, by simpa [Ne.symm hki, Ne.symm hkj] using hk⟩

variable {scores : List τ}

theorem mem_exploreSwap [FloorRing K] {explorationWeight : K} {x : τ} :
    x ∈ exploreSwap score scores explorationWeight ↔ x ∈ scores := by
  unfold exploreSwap
  split
  · rfl
  · dsimp only
    split
    · next hsecond hother =>
      split
      · exact mem_swap hsecond hother
      · rfl
    · rfl

theorem map_selectTop {β : Type} {f : τ → β} (hf : ∀ s, f (select s) = f s) (maxCandidates : K)
    (scores : List τ) (selected : Nat) :
    (selectTop score select maxCandidates selected scores).map f = scores.map f := by
  induction scores generalizing selected with
  | nil => rfl
  | cons s rest ih =>
    unfold selectTop
    split
    · rfl
    · rw [map_cons, map_cons, hf, ih]

theorem mem_map_finalizeScores [FloorRing K] {β : Type} {f : τ → β}
    (hf : ∀ s, f (select s) = f s) {maxCandidates explorationWeight : K} {y : β} :
    y ∈ (finalizeScores score select scores maxCandidates explorationWeight).map f ↔
      y ∈ scores.map f := by
  unfold finalizeScores
  rw [map_selectTop hf, mem_map, mem_map]
  simp only [mem_exploreSwap, mem_sortOn]

end

/-! ## §2. Which nodes are ranked -/

/-- A search finds only routes of the graph it is given. -/
structure FrontierSearch.Sound (search : FrontierSearch K) : Prop where
  evidence : ∀ graph source,
    HoldsRoutes TRUST_DIMENSIONS graph source (search.evidence graph source)
  executed : ∀ graph source maxPaths,
    HoldsRoutes EXEC_DIMENSIONS graph source (search.executed graph source maxPaths)

/-- **The search of the code** finds only routes of its graph. -/
theorem sound_pareto (localeCompare : Text → Text → Int) :
    (FrontierSearch.pareto localeCompare : FrontierSearch K).Sound where
  evidence graph source := frontierPaths_isRoute _ _ graph source _
  executed graph source _ := frontierPaths_isRoute _ _ graph source _

section

variable (selfId : Text) (candidates : List (CandidateProfile K))
  (requirements : TaskRequirements K) (config : RoutingConfig K)

/-- The profile listed for a node meets the required capabilities. -/
def Capable (node : Text) : Prop :=
  ¬ (computeCapabilityMatch ((candidateMap candidates).get node) requirements = 0 ∧
    requirements.required_capabilities ≠ [])

/-- A node that may be ranked: planned routes lead to it, and evidence vouches for it. -/
structure Rankable (node : Text) : Prop where
  other : node ≠ selfId
  reached : Reached selfId candidates (traversed config.peerEdges)
    config.callerGuardianPublicKey node
  vouched : ∃ trust, Vouched selfId candidates config.peerEdges config.callerGuardianPublicKey node
    trust ∧ 0 < trust
  capable : Capable candidates requirements node

/-- The id of a listed candidate that is online and not blocked. -/
def EligibleId (id : Text) : Prop := ∃ c ∈ candidates, c.motebit_id = id ∧ c.eligible = true

end

section

variable {search : FrontierSearch K} {localeCompare : Text → Text → Int} {selfId : Text}
  {candidates : List (CandidateProfile K)} {requirements : TaskRequirements K}
  {config : RoutingConfig K} {compositeFn : Option (CompositeFunction K)}
  {weights : RoutingWeights K}

theorem scoreRoute_isSome {nodeId : Text} {route : RouteWeight K} {hw : K} :
    (scoreRoute nodeId route ((candidateMap candidates).get nodeId) requirements weights compositeFn
      hw).isSome ↔ Capable candidates requirements nodeId := by
  unfold scoreRoute Capable
  dsimp only
  split
  · next h => simp [h]
  · next h => simp only [Option.isSome_some, true_iff]; exact h

theorem motebit_id_of_scoreRoute {nodeId : Text} {route : RouteWeight K}
    {candidate : Option (CandidateProfile K)} {hw : K} {score : RouteScore K}
    (h : scoreRoute nodeId route candidate requirements weights compositeFn hw = some score) :
    score.motebit_id = nodeId := by
  unfold scoreRoute at h
  dsimp only at h
  split at h
  · cases h
  · cases h
    rfl

theorem pickRoute_some {frontier : Frontier ExecDimension K}
    {scoreOne : ExecWeight K → Option (RouteScore K)} {picked : PickedRoute K}
    (h : pickRoute localeCompare frontier scoreOne = some picked) :
    ∃ p ∈ frontier, scoreOne p.weight = some picked.score := by
  unfold pickRoute at h
  dsimp only at h
  split at h
  · cases h
  obtain ⟨score, hscore, rfl⟩ := Option.map_eq_some_iff.mp h
  obtain ⟨q, hq, hone⟩ := Option.bind_eq_some_iff.mp hscore
  exact ⟨q, mem_of_find?_eq_some hq, hone⟩

theorem pickRoute_single (p : PathWeight ExecDimension K)
    (scoreOne : ExecWeight K → Option (RouteScore K)) : pickRoute localeCompare [p] scoreOne =
      (scoreOne p.weight).map fun score => ⟨score, [p], 1⟩ := by
  unfold pickRoute
  simp

/-- Each entry is set for a frontier of the search. -/
theorem set_of_ranked {entry : Text × RankedCandidate K}
    {frontiers : JsMap Text (Frontier ExecDimension K)}
    {rank : Text × Frontier ExecDimension K → Option (RankedCandidate K)}
    {out : JsMap Text (RankedCandidate K)}
    (hout : entry ∈ frontiers.foldl (fun out e => match rank e with
      | some ranked => out.set e.1 ranked
      | none => out) out) :
    entry ∈ out ∨ ∃ frontier, (entry.1, frontier) ∈ frontiers ∧
      rank (entry.1, frontier) = some entry.2 := by
  induction frontiers generalizing out with
  | nil => exact .inl hout
  | cons e frontiers ih =>
    rw [foldl_cons] at hout
    rcases ih hout with hold | ⟨frontier, hmem, hrank⟩
    · cases he : rank e with rw [he] at hold
      | none => exact .inl hold
      | some =>
        rcases JsMap.mem_set.mp hold with rfl | ⟨hold, -⟩
        · exact .inr ⟨e.2, mem_cons_self, he⟩
        · exact .inl hold
    · exact .inr ⟨frontier, mem_cons_of_mem e hmem, hrank⟩

/-- The evidence is the first route to the node. -/
theorem first_of_evidence {target : Text} {ev : Evidence K}
    {found : JsMap Text (Frontier TrustDimension K)} {out : JsMap Text (Evidence K)}
    (hout : (found.foldl (fun out entry => match entry.2.head? with
      | some best => out.set entry.1 ⟨best.weight .trust, best.path⟩
      | none => out) out).get target = some ev) :
    out.get target = some ev ∨ ∃ f, (target, f) ∈ found ∧ ∃ q ∈ f, q.weight .trust = ev.trust := by
  induction found generalizing out with
  | nil => exact .inl hout
  | cons e found ih =>
    rw [foldl_cons] at hout
    rcases ih hout with hold | ⟨f, hf, hq⟩
    · cases hhead : e.2.head? with rw [hhead] at hold
      | none => exact .inl hold
      | some best =>
        rw [JsMap.get_set] at hold
        split at hold
        · next heq =>
          cases hold
          refine .inr ⟨e.2, ?_, best, mem_of_mem_head? hhead, rfl⟩
          rw [heq]
          exact mem_cons_self
        · exact .inl hold
    · exact .inr ⟨f, mem_cons_of_mem e hf, hq⟩

theorem rankable_of_ranked (hsound : search.Sound) {entry : Text × RankedCandidate K}
    (h : entry ∈ rankOverExecutedRoutes search localeCompare selfId candidates requirements
      config) :
    Rankable selfId candidates requirements config entry.1 ∧
      entry.2.score.motebit_id = entry.1 := by
  rcases set_of_ranked h with hnil | ⟨frontier, hmem, hrank⟩
  · cases hnil
  unfold rankNodeRoutes at hrank
  split at hrank
  · cases hrank
  next hother =>
  split at hrank
  · cases hrank
  next ev hev =>
  split at hrank
  · cases hrank
  next htrust =>
  obtain ⟨picked, hpick, hentry⟩ := Option.map_eq_some_iff.mp hrank
  obtain ⟨p, hp, hscore⟩ := pickRoute_some hpick
  refine ⟨⟨hother, ?_, ?_, ?_⟩, ?_⟩
  · exact reached_iff.mp ⟨_, _, hsound.executed _ _ _ _ hmem p hp⟩
  · rcases first_of_evidence hev with hnil | ⟨f, hf, q, hq, htrustq⟩
    · cases hnil
    · exact ⟨ev.trust, vouched_iff.mp ⟨q.weight, q.path, hsound.evidence _ _ _ hf q hq, htrustq⟩,
        lt_of_not_ge htrust⟩
  · exact scoreRoute_isSome.mp (by rw [hscore]; rfl)
  · rw [← hentry]
    exact motebit_id_of_scoreRoute hscore

/-- The search that returns one given route for each query, where it is a route. -/
noncomputable def oneRoute (node : Text) (blank : WeightedDigraph Text (ExecWeight K) → Prop) :
    FrontierSearch K := by
  classical
  exact
    { evidence := fun graph source =>
        if h : ∃ p : PathWeight TrustDimension K,
            IsRoute TRUST_DIMENSIONS graph source node p.weight p.path ∧ 0 < p.weight .trust then
          [(node, [h.choose])] else []
      executed := fun graph source _ =>
        if h : ¬ blank graph ∧ ∃ p : PathWeight ExecDimension K,
            IsRoute EXEC_DIMENSIONS graph source node p.weight p.path then
          [(node, [h.2.choose])] else [] }

theorem sound_oneRoute (node : Text) (blank : WeightedDigraph Text (ExecWeight K) → Prop) :
    (oneRoute node blank : FrontierSearch K).Sound where
  evidence graph source := by
    intro entry hentry p hp
    unfold oneRoute at hentry
    dsimp only at hentry
    split at hentry
    · next h =>
      rw [mem_singleton.mp hentry] at hp ⊢
      rw [mem_singleton.mp hp]
      exact h.choose_spec.1
    · cases hentry
  executed graph source maxPaths := by
    intro entry hentry p hp
    unfold oneRoute at hentry
    dsimp only at hentry
    split at hentry
    · next h =>
      rw [mem_singleton.mp hentry] at hp ⊢
      rw [mem_singleton.mp hp]
      exact h.2.choose_spec
    · cases hentry

theorem ranked_oneRoute {node : Text} (h : Rankable selfId candidates requirements config node)
    {blank : WeightedDigraph Text (ExecWeight K) → Prop} (hblank : ¬ blank
      (executedGraph selfId candidates config.peerEdges config.callerGuardianPublicKey)) :
    ∃ ranked, rankOverExecutedRoutes (oneRoute node blank) localeCompare selfId candidates
      requirements config = [(node, ranked)] := by
  obtain ⟨weight, path, hroute⟩ := reached_iff.mpr h.reached
  obtain ⟨trust, hvouched, hpos⟩ := h.vouched
  obtain ⟨tweight, tpath, htroute, rfl⟩ := vouched_iff.mpr hvouched
  have hexec : ¬ blank (executedGraph selfId candidates config.peerEdges
      config.callerGuardianPublicKey) ∧ ∃ p : PathWeight ExecDimension K, IsRoute EXEC_DIMENSIONS
        (executedGraph selfId candidates config.peerEdges config.callerGuardianPublicKey) selfId
        node p.weight p.path := ⟨hblank, ⟨weight, path⟩, hroute⟩
  have hev : ∃ p : PathWeight TrustDimension K, IsRoute TRUST_DIMENSIONS (trustGraph
      (buildRoutingGraph selfId candidates config.peerEdges config.callerGuardianPublicKey)) selfId
      node p.weight p.path ∧ 0 < p.weight .trust := ⟨⟨tweight, tpath⟩, htroute, hpos⟩
  have hnonpos : ¬ hev.choose.weight .trust ≤ 0 := not_le_of_gt hev.choose_spec.2
  unfold rankOverExecutedRoutes executedFrontiers trustEvidence oneRoute
  dsimp only
  rw [dif_pos hexec, dif_pos hev]
  simp only [foldl_cons, foldl_nil, head?_cons, rankNodeRoutes, if_neg h.other,
    JsMap.get_set, if_true, if_neg hnonpos, pickRoute_single]
  obtain ⟨score, hscore⟩ := Option.isSome_iff_exists.mp (scoreRoute_isSome.mpr h.capable)
  rw [hscore]
  exact ⟨_, rfl⟩

/-! ## §3. A peer edge on a supplied leg -/

variable {e : PeerEdge K} {before after : List (PeerEdge K)}

theorem openEdges_insert (h : legKey e.source e.target ∈ viaKeys selfId candidates) :
    openEdges selfId candidates (before ++ e :: after) =
      openEdges selfId candidates (before ++ after) := by
  unfold openEdges
  rw [filter_append, filter_append, filter_cons_of_neg (by simpa using h)]

theorem traversed_insert (h : legKey e.source e.target ∈ viaKeys selfId candidates) :
    openEdges selfId candidates (traversed (before ++ e :: after)) =
      openEdges selfId candidates (traversed (before ++ after)) := by
  unfold traversed
  rw [filter_append, filter_append]
  by_cases hkind : e.kind = .traversed
  · rw [filter_cons_of_pos (by simpa using hkind)]
    exact openEdges_insert h
  · rw [filter_cons_of_neg (by simpa using hkind)]

theorem buildRoutingGraph_congr {peerEdges peerEdges' : List (PeerEdge K)}
    {callerGuardian : Option Text}
    (h : openEdges selfId candidates peerEdges = openEdges selfId candidates peerEdges') :
    buildRoutingGraph selfId candidates peerEdges callerGuardian =
      buildRoutingGraph selfId candidates peerEdges' callerGuardian := by
  rw [buildRoutingGraph_eq, buildRoutingGraph_eq, h]

theorem get_edgeHwScores (peerEdges : List (PeerEdge K)) (out : JsMap Text K) (key : Text) :
    (peerEdges.foldl (fun out edge => JsMap.set out (legKey edge.source edge.target)
      (edge.hw_attestation.getD HW_ATTESTATION_HARDWARE)) out).get key =
        ((peerEdges.filter fun e => legKey e.source e.target = key).getLast?.map fun e =>
          e.hw_attestation.getD HW_ATTESTATION_HARDWARE).or (out.get key) := by
  have hpairs := JsMap.get_foldl_pairs (peerEdges.map fun e => (legKey e.source e.target,
    e.hw_attestation.getD HW_ATTESTATION_HARDWARE)) out key
  rwa [foldl_map, filter_map, getLast?_map, Option.map_map] at hpairs

/-- The edge is no part of the task, or a later one of its hop stands, or it declares the custody
the hop already had. -/
def Unmoved (selfId : Text) (candidates : List (CandidateProfile K)) (e : PeerEdge K)
    (before after : List (PeerEdge K)) : Prop :=
  e.kind = .evidence ∨
    (∃ e' ∈ traversed after, legKey e'.source e'.target = legKey e.source e.target) ∨
      (edgeHwScores selfId candidates (traversed before)).get (legKey e.source e.target) =
        some (e.hw_attestation.getD HW_ATTESTATION_HARDWARE)

theorem traversed_append (l l' : List (PeerEdge K)) :
    traversed (l ++ l') = traversed l ++ traversed l' := filter_append ..

theorem edgeHwScores_append (l l' : List (PeerEdge K)) (key : Text) :
    (edgeHwScores selfId candidates (l ++ l')).get key =
      ((l'.filter fun e => legKey e.source e.target = key).getLast?.map fun e =>
        e.hw_attestation.getD HW_ATTESTATION_HARDWARE).or
          ((edgeHwScores selfId candidates l).get key) := by
  unfold edgeHwScores
  rw [foldl_append, get_edgeHwScores]

theorem edgeHwScores_insert (hkind : e.kind = .traversed) (key : Text) :
    (edgeHwScores selfId candidates (traversed (before ++ e :: after))).get key =
      (((traversed after).filter fun e => legKey e.source e.target = key).getLast?.map fun e =>
        e.hw_attestation.getD HW_ATTESTATION_HARDWARE).or
          (if key = legKey e.source e.target then
            some (e.hw_attestation.getD HW_ATTESTATION_HARDWARE)
          else (edgeHwScores selfId candidates (traversed before)).get key) := by
  have hsplit : traversed (before ++ e :: after) = traversed before ++ (e :: traversed after) := by
    rw [traversed_append]
    unfold traversed
    rw [filter_cons_of_pos (by simpa using hkind)]
  unfold edgeHwScores
  rw [hsplit, foldl_append, foldl_cons, get_edgeHwScores, JsMap.get_set]

variable {callerGuardian : Option Text}

theorem executedGraph_of_unmoved (hkey : legKey e.source e.target ∈ viaKeys selfId candidates)
    (h : Unmoved selfId candidates e before after) :
    executedGraph selfId candidates (before ++ e :: after) callerGuardian =
      executedGraph selfId candidates (before ++ after) callerGuardian := by
  have hgraph := @buildRoutingGraph_congr _ _ _ _ _ _ _ callerGuardian
    (@traversed_insert _ _ _ _ _ _ before after hkey)
  unfold executedGraph
  by_cases hkind : e.kind = .traversed
  · have hscores : ∀ key, (edgeHwScores selfId candidates (traversed (before ++ e :: after))).get
        key = (edgeHwScores selfId candidates (traversed (before ++ after))).get key := by
      intro key
      rw [edgeHwScores_insert hkind, traversed_append, edgeHwScores_append]
      by_cases heq : key = legKey e.source e.target
      · rw [if_pos heq, heq]
        rcases h with hev | ⟨e', he', hsame⟩ | hsame
        · rw [hkind] at hev
          cases hev
        · have hin : e' ∈ (traversed after).filter fun x =>
              legKey x.source x.target = legKey e.source e.target :=
            mem_filter.mpr ⟨he', by simpa using hsame⟩
          obtain ⟨last, hlast⟩ := Option.isSome_iff_exists.mp
            (getLast?_isSome.mpr (ne_nil_of_mem hin))
          rw [hlast]
          rfl
        · rw [hsame]
      · rw [if_neg heq]
    congr 1
    funext source target weight dimension
    cases dimension with
    | hw =>
      show (JsMap.get _ _).getD 0 = (JsMap.get _ _).getD 0
      rw [hscores]
    | cost | latency | reliability | regulatory_risk => rfl
  · have hsame : traversed (before ++ e :: after) = traversed (before ++ after) := by
      unfold traversed
      rw [filter_append, filter_append, filter_cons_of_neg (by simpa using hkind)]
    rw [hsame]

theorem unmoved_of_executedGraph {c : CandidateProfile K}
    (hc : c ∈ candidates) (heligible : c.eligible = true) (hsource : e.source = c.legSource selfId)
    (htarget : e.target = c.motebit_id)
    (hkey : legKey e.source e.target ∈ viaKeys selfId candidates)
    (h : executedGraph selfId candidates (before ++ e :: after) callerGuardian =
      executedGraph selfId candidates (before ++ after) callerGuardian) :
    Unmoved selfId candidates e before after := by
  by_contra hmoved
  unfold Unmoved at hmoved
  push Not at hmoved
  obtain ⟨hev, hlater, hdeclared⟩ := hmoved
  have hkind : e.kind = .traversed := by
    cases hk : e.kind with
    | traversed => rfl
    | evidence => exact absurd hk hev
  have hlast : (traversed after).filter
      (fun x => legKey x.source x.target = legKey e.source e.target) = [] := by
    rw [filter_eq_nil_iff]
    intro x hx
    simpa using hlater x hx
  -- the leg is an edge of both graphs, with the two custodies
  have hleg : (hop selfId candidates (traversed (before ++ after)) callerGuardian e.source
      e.target).isSome :=
    hop_isSome.mpr (.inr ⟨c, hc, heligible, hsource.symm, htarget.symm⟩)
  obtain ⟨w, hw⟩ := Option.isSome_iff_exists.mp hleg
  have hgraph := @buildRoutingGraph_congr _ _ _ _ _ _ _ callerGuardian
    (@traversed_insert _ _ _ _ _ _ before after hkey)
  have hedge := congrArg (fun graph => WeightedDigraph.edge? graph e.source e.target) h
  unfold executedGraph at hedge
  rw [hgraph, WeightedDigraph.get_reweigh _ tidy_buildRoutingGraph,
    WeightedDigraph.get_reweigh _ tidy_buildRoutingGraph, edge?_buildRoutingGraph, hw,
    Option.map_some, Option.map_some] at hedge
  have hhw := congrFun (Option.some.inj hedge) ExecDimension.hw
  -- the candidate's own score is recorded under the key
  have hown : ∃ x, (edgeHwScores selfId candidates (traversed before)).get
      (legKey e.source e.target) = some x := by
    have hcand := JsMap.get_foldl_pairs (candidates.map fun c =>
      (legKey (c.reachable_via.getD selfId) c.motebit_id, custodyScore c)) []
      (legKey e.source e.target)
    rw [foldl_map] at hcand
    have hin : (legKey e.source e.target, custodyScore c) ∈ (candidates.map fun c =>
        (legKey (c.reachable_via.getD selfId) c.motebit_id, custodyScore c)).filter
          fun p => p.1 = legKey e.source e.target := by
      rw [mem_filter, hsource, htarget]
      exact ⟨mem_map.mpr ⟨c, hc, rfl⟩, by simp⟩
    obtain ⟨last, hlast⟩ := Option.isSome_iff_exists.mp (getLast?_isSome.mpr (ne_nil_of_mem hin))
    rw [hlast] at hcand
    unfold edgeHwScores candidateHwScores
    rw [get_edgeHwScores, hcand]
    exact Option.isSome_iff_exists.mp (by simp)
  obtain ⟨x, hx⟩ := hown
  simp only [execWeight] at hhw
  rw [edgeHwScores_insert hkind, traversed_append, edgeHwScores_append, if_pos rfl, hlast, hx] at hhw
  simp only [getLast?_nil, Option.map_none, Option.none_or, Option.getD_some] at hhw
  rw [hx, hhw] at hdeclared
  exact hdeclared rfl

end

/-! ## §4. When the ranking is what it should be -/

section

variable [FloorRing K]

/-- Every id that a ranking returns is that of an eligible candidate. -/
def OnlyEligible (search : FrontierSearch K) (localeCompare : Text → Text → Int) (selfId : Text)
    (candidates : List (CandidateProfile K)) (requirements : TaskRequirements K)
    (config : RoutingConfig K) : Prop :=
  (∀ s ∈ graphRankCandidates search localeCompare selfId candidates requirements config,
    EligibleId candidates s.motebit_id) ∧
  ∀ s ∈ explainedRankCandidates search localeCompare selfId candidates requirements config,
    EligibleId candidates s.motebit_id

/-- No traversed peer edge leads a planned route on to a node that is vouched for and capable, but
is no eligible candidate. -/
def Confined (selfId : Text) (candidates : List (CandidateProfile K))
    (requirements : TaskRequirements K) (config : RoutingConfig K) : Prop :=
  ∀ e ∈ openEdges selfId candidates (traversed config.peerEdges),
    Reached selfId candidates (traversed config.peerEdges) config.callerGuardianPublicKey e.source →
    e.target ≠ selfId →
    (∃ trust, Vouched selfId candidates config.peerEdges config.callerGuardianPublicKey e.target
      trust ∧ 0 < trust) →
    Capable candidates requirements e.target → EligibleId candidates e.target

def RoutingConfig.withPeers (config : RoutingConfig K) (peerEdges : List (PeerEdge K)) :
    RoutingConfig K := { config with peerEdges }

variable {search : FrontierSearch K} {localeCompare : Text → Text → Int} {selfId : Text}
  {candidates : List (CandidateProfile K)} {requirements : TaskRequirements K}
  {config : RoutingConfig K}

theorem mem_ids_rank {id : Text} :
    (id ∈ (graphRankCandidates search localeCompare selfId candidates requirements config).map
      RouteScore.motebit_id ↔ ∃ r ∈ rankOverExecutedRoutes search localeCompare selfId candidates
        requirements config, r.2.score.motebit_id = id) ∧
    (id ∈ (explainedRankCandidates search localeCompare selfId candidates requirements config).map
      (fun s => s.motebit_id) ↔ ∃ r ∈ rankOverExecutedRoutes search localeCompare selfId candidates
        requirements config, r.2.score.motebit_id = id) := by
  constructor
  · have hselect : ∀ s : RouteScore K, s.select.motebit_id = s.motebit_id := fun _ => rfl
    unfold graphRankCandidates
    rw [mem_map_finalizeScores hselect, map_map, mem_map]
    rfl
  · have hselect : ∀ s : ExplainedRouteScore K, s.select.motebit_id = s.motebit_id := fun _ => rfl
    unfold explainedRankCandidates
    rw [mem_map_finalizeScores hselect, map_map, mem_map]
    rfl

theorem onlyEligible_of_confined (hsound : search.Sound)
    (h : Confined selfId candidates requirements config) :
    OnlyEligible search localeCompare selfId candidates requirements config := by
  have hranked : ∀ r ∈ rankOverExecutedRoutes search localeCompare selfId candidates requirements
      config, EligibleId candidates r.2.score.motebit_id := by
    intro r hr
    obtain ⟨⟨hother, hreached, hvouched, hcapable⟩, hid⟩ := rankable_of_ranked hsound hr
    rw [hid]
    rcases Relation.ReflTransGen.cases_tail hreached with hself | ⟨source, hsource, hhop⟩
    · exact absurd hself hother
    · rcases hop_isSome.mp hhop with ⟨e, he, rfl, htarget⟩ | ⟨c, hc, heligible, -, hcid⟩
      · rw [← htarget] at hother hvouched hcapable ⊢
        exact h e he hsource hother hvouched hcapable
      · exact ⟨c, hc, hcid, heligible⟩
  constructor
  · intro s hs
    obtain ⟨r, hr, heq⟩ := mem_ids_rank.1.mp (mem_map_of_mem hs)
    rw [← heq]
    exact hranked r hr
  · intro s hs
    obtain ⟨r, hr, heq⟩ := mem_ids_rank.2.mp (mem_map.mpr ⟨s, hs, rfl⟩)
    rw [← heq]
    exact hranked r hr

theorem confined_of_onlyEligible (h : ∀ search : FrontierSearch K, search.Sound →
    OnlyEligible search localeCompare selfId candidates requirements config) :
    Confined selfId candidates requirements config := by
  intro e he hsource hother hvouched hcapable
  have hrankable : Rankable selfId candidates requirements config e.target :=
    ⟨hother, hsource.tail (hop_isSome.mpr (.inl ⟨e, he, rfl, rfl⟩)), hvouched, hcapable⟩
  obtain ⟨ranked, hranked⟩ := @ranked_oneRoute _ _ _ localeCompare _ _ _ _ _ hrankable
    (fun _ => False) not_false
  have hmem := mem_singleton.mpr (rfl : (e.target, ranked) = (e.target, ranked))
  rw [← hranked] at hmem
  have hid := (rankable_of_ranked (sound_oneRoute _ _) hmem).2
  obtain ⟨s, hs, heq⟩ := mem_map.mp (mem_ids_rank.1.mpr ⟨_, hmem, hid⟩)
  have heligible := (h _ (sound_oneRoute e.target fun _ => False)).1 s hs
  rwa [heq] at heligible

theorem ranked_eq_nil (hsound : search.Sound)
    (h : ∀ node, ¬ Rankable selfId candidates requirements config node) :
    rankOverExecutedRoutes search localeCompare selfId candidates requirements config = [] := by
  rw [eq_nil_iff_forall_not_mem]
  intro r hr
  exact h _ (rankable_of_ranked hsound hr).1

/-- The scores with a peer edge inserted are those without. -/
def Unchanged (search : FrontierSearch K) (localeCompare : Text → Text → Int) (selfId : Text)
    (candidates : List (CandidateProfile K)) (requirements : TaskRequirements K)
    (config : RoutingConfig K) (e : PeerEdge K) (before after : List (PeerEdge K)) : Prop :=
  graphRankCandidates search localeCompare selfId candidates requirements
      (config.withPeers (before ++ e :: after)) =
    graphRankCandidates search localeCompare selfId candidates requirements
      (config.withPeers (before ++ after)) ∧
  explainedRankCandidates search localeCompare selfId candidates requirements
      (config.withPeers (before ++ e :: after)) =
    explainedRankCandidates search localeCompare selfId candidates requirements
      (config.withPeers (before ++ after))

theorem unchanged_iff {c : CandidateProfile K} (hc : c ∈ candidates) (heligible : c.eligible = true)
    (hvia : c.viaPeer = true) {e : PeerEdge K} (hsource : e.source = c.legSource selfId)
    (htarget : e.target = c.motebit_id) (before after : List (PeerEdge K)) :
    (∀ search : FrontierSearch K, search.Sound →
      Unchanged search localeCompare selfId candidates requirements config e before after) ↔
      Unmoved selfId candidates e before after ∨
        ∀ node, ¬ Rankable selfId candidates requirements (config.withPeers (before ++ after))
          node := by
  have hkey : legKey e.source e.target ∈ viaKeys selfId candidates := by
    rw [hsource, htarget]
    exact mem_map.mpr ⟨c, mem_filter.mpr ⟨mem_filter.mpr ⟨hc, heligible⟩, hvia⟩, rfl⟩
  have hplain := @buildRoutingGraph_congr _ _ _ selfId candidates _ _ config.callerGuardianPublicKey
    (@openEdges_insert _ _ _ _ _ _ before after hkey)
  constructor
  · intro h
    by_contra hnot
    rw [not_or, not_forall] at hnot
    obtain ⟨hmoved, node, hnode⟩ := hnot
    rw [not_not] at hnode
    -- a search that finds nothing with the edge, and a route without it
    let blank : WeightedDigraph Text (ExecWeight K) → Prop := fun graph =>
      graph = executedGraph selfId candidates (before ++ e :: after) config.callerGuardianPublicKey
    have hblank : ¬ blank (executedGraph selfId candidates (before ++ after)
        config.callerGuardianPublicKey) := by
      intro heq
      exact hmoved (unmoved_of_executedGraph hc heligible hsource htarget hkey heq.symm)
    obtain ⟨ranked, hranked⟩ := @ranked_oneRoute _ _ _ localeCompare _ _ _ _ _ hnode blank hblank
    have hnone : rankOverExecutedRoutes (oneRoute node blank) localeCompare selfId candidates
        requirements (config.withPeers (before ++ e :: after)) = [] := by
      unfold rankOverExecutedRoutes executedFrontiers oneRoute
      dsimp only
      rw [dif_neg (fun hnot => hnot.1 rfl)]
      rfl
    have hmem := mem_singleton.mpr (rfl : (node, ranked) = (node, ranked))
    rw [← hranked] at hmem
    have hid := mem_ids_rank.1.mpr ⟨_, hmem, rfl⟩
    rw [← (h _ (sound_oneRoute node blank)).1] at hid
    obtain ⟨r, hr, -⟩ := mem_ids_rank.1.mp hid
    rw [hnone] at hr
    cases hr
  · intro h search hsound
    have hcore : rankOverExecutedRoutes search localeCompare selfId candidates requirements
        (config.withPeers (before ++ e :: after)) = rankOverExecutedRoutes search localeCompare
          selfId candidates requirements (config.withPeers (before ++ after)) := by
      rcases h with hunmoved | hnone
      · unfold rankOverExecutedRoutes executedFrontiers RoutingConfig.withPeers
        rw [hplain, executedGraph_of_unmoved hkey hunmoved]
      · have hnone' : ∀ node, ¬ Rankable selfId candidates requirements
            (config.withPeers (before ++ e :: after)) node := by
          intro node hnode
          apply hnone node
          obtain ⟨hother, hreached, hvouched, hcapable⟩ := hnode
          have hhops : ∀ source target,
              hop selfId candidates (before ++ e :: after) config.callerGuardianPublicKey source
                target = hop selfId candidates (before ++ after) config.callerGuardianPublicKey
                  source target := by
            intro source target
            unfold hop
            rw [openEdges_insert hkey]
          refine ⟨hother, ?_, ?_, hcapable⟩
          · unfold Reached hop RoutingConfig.withPeers at hreached ⊢
            rwa [traversed_insert hkey] at hreached
          · obtain ⟨trust, hchain, hpos⟩ := hvouched
            refine ⟨trust, ?_, hpos⟩
            clear hpos hother hreached hcapable
            induction hchain with
            | start => exact .start
            | step _ hhop ih => exact ih.step ((hhops _ _).symm.trans hhop)
        rw [ranked_eq_nil hsound hnone, ranked_eq_nil hsound hnone']
    unfold Unchanged graphRankCandidates explainedRankCandidates
    rw [hcore]
    exact ⟨rfl, rfl⟩

/-- **Who is ranked, and what a placeholder changes.**  Over all searches that find only routes of
their graph, only eligible candidates are ranked if and only if no traversed peer edge leads on to
another capable node that is vouched for; and a peer edge on the leg that an eligible candidate's
profile supplies changes no score if and only if it leaves the custody of the hop as it was, or
nothing is ranked at all. -/
theorem eligible_ranking (localeCompare : Text → Text → Int) (selfId : Text)
    (candidates : List (CandidateProfile K)) (requirements : TaskRequirements K)
    (config : RoutingConfig K) :
    ((∀ search : FrontierSearch K, search.Sound →
      OnlyEligible search localeCompare selfId candidates requirements config) ↔
        Confined selfId candidates requirements config) ∧
    ∀ c ∈ candidates, c.eligible = true → c.viaPeer = true →
      ∀ e : PeerEdge K, e.source = c.legSource selfId → e.target = c.motebit_id →
      ∀ before after : List (PeerEdge K),
        (∀ search : FrontierSearch K, search.Sound →
          Unchanged search localeCompare selfId candidates requirements config e before after) ↔
            Unmoved selfId candidates e before after ∨
              ∀ node, ¬ Rankable selfId candidates requirements
                (config.withPeers (before ++ after)) node := by
  refine ⟨⟨confined_of_onlyEligible, fun h search hsound => onlyEligible_of_confined hsound h⟩, ?_⟩
  intro c hc heligible hvia e hsource htarget before after
  exact unchanged_iff hc heligible hvia hsource htarget before after

end

/-! ## §5. Where it is not -/

/-- A candidate without a record, reached through a peer or directly. -/
def plainCandidate (id : Text) (online : Bool) (via : Option Text) : CandidateProfile ℚ where
  motebit_id := id
  trust_record := none
  listing := none
  latency_stats := none
  is_online := online
  chain_trust := some (1 / 2)
  reachable_via := via
  credential_reputation := none
  guardian_public_key := none
  hardware_attestation := none
  hardware_attestation_aggregate := none

/-- A traversed peer edge of trust a half. -/
def plainEdge (source target : Text) : PeerEdge ℚ :=
  ⟨source, target, .traversed, fun _ => some (1 / 2), none⟩

def plainConfig (peerEdges : List (PeerEdge ℚ)) : RoutingConfig ℚ :=
  ⟨none, none, peerEdges, none, none, none, none⟩

/-- The ids and trusts a ranking of the code's own search returns. -/
def rankedTrusts (candidates : List (CandidateProfile ℚ)) (peerEdges : List (PeerEdge ℚ)) :
    List (Text × ℚ) :=
  (graphRankCandidates (.pareto fun _ _ => 0) (fun _ _ => 0) [1] candidates ⟨[], none⟩
    (plainConfig peerEdges)).map fun s => (s.motebit_id, s.sub_scores.trust)

/-- A traversed edge leads on to an offline candidate, which is ranked; and a placeholder for the
leg that a profile supplies raises the trust its score reports. -/
theorem offline_ranked : rankedTrusts [plainCandidate [2] true none, plainCandidate [3] false none]
        [plainEdge [2] [3]] = [([2], 1 / 2), ([3], 1 / 4)] ∧
      rankedTrusts [plainCandidate [2] true none, plainCandidate [3] true (some [2])] [] =
        [([2], 1 / 2), ([3], 1 / 4)] ∧
      rankedTrusts [plainCandidate [2] true none, plainCandidate [3] true (some [2])]
        [plainEdge [2] [3], plainEdge [1] [2]] ≠
          rankedTrusts [plainCandidate [2] true none, plainCandidate [3] true (some [2])]
            [plainEdge [1] [2]] := by
  decide +kernel

end Motebit.Market
