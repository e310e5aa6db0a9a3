/-
  Motebit.Market.TrustPropagation — TRUST ALONG CHAINS OF CREDENTIALS.

  Translated from `packages/market/src/trust-propagation.ts`.  Weights are rationals, so each is
  finite.

  Main results: `chain_of_walk`, `walk_of_chain`, `propagated_trust`.
-/

import Mathlib.Tactic.Linarith
import Motebit.Lib.Json
import Motebit.Traversal.Edges
import Motebit.Traversal.Trace

namespace Motebit.Market

open Motebit.Lib Motebit.Lib.Json Motebit.Traversal List WeightedDigraph

/-! ## §1. The propagation -/

/-- A trust: a number from zero to one. -/
abbrev Trust := {x : ℚ // 0 ≤ x ∧ x ≤ 1}

def TrustSemiring : SemiringOps Trust where
  zero := ⟨0, by norm_num⟩
  one := ⟨1, by norm_num⟩
  add a b := max a b
  mul a b := ⟨a.1 * b.1, mul_nonneg a.2.1 b.2.1, mul_le_one₀ a.2.2 b.2.1 b.2.2⟩
  eq a b := a == b

def clamped (weight : ℚ) : Trust :=
  ⟨max 0 (min weight 1), le_max_left _ _, max_le zero_le_one (min_le_right _ _)⟩

structure CredentialEdge where
  issuer : Text
  subject : Text
  weight : ℚ

structure TrustPropagationOptions where
  roots : List Text
  minTrust : Option ℚ
  includeRoots : Option Bool

structure PropagatedTrust where
  agentId : Text
  trust : ℚ
  path : List Text
  depth : Nat
  deriving DecidableEq

def TRUST_SUPER_SOURCE : Text := toText "__trust_super_source__".toList

def addRoot (graph : WeightedDigraph Text Trust) (root : Text) : WeightedDigraph Text Trust :=
  graph.setEdge TRUST_SUPER_SOURCE root TrustSemiring.one

/-- One credential; a weight that is not positive is skipped. -/
def addCredential (graph : WeightedDigraph Text Trust) (edge : CredentialEdge) :
    WeightedDigraph Text Trust :=
  if edge.weight ≤ 0 then graph
  else graph.addEdge TrustSemiring edge.issuer edge.subject (clamped edge.weight)

def buildTrustGraph (credentials : List CredentialEdge) (roots : List Text) :
    WeightedDigraph Text Trust :=
  credentials.foldl addCredential
    (roots.foldl addRoot (WeightedDigraph.empty.addNode TRUST_SUPER_SOURCE))

def TrustPropagationOptions.least (options : TrustPropagationOptions) : ℚ :=
  options.minTrust.getD (1 / 100)

def propagatedTo (graph : WeightedDigraph Text Trust) (options : TrustPropagationOptions)
    (agentId : Text) : Option PropagatedTrust :=
  if agentId = TRUST_SUPER_SOURCE then none
  else if options.includeRoots.getD false = false ∧ agentId ∈ options.roots then none
  else match optimalPathTrace TrustSemiring graph TRUST_SUPER_SOURCE agentId with
  | none => none
  | some (value, path) =>
    if value.1 < options.least then none
    else if path.tail = [] then none
    else some ⟨agentId, value.1, path.tail, path.tail.length - 1⟩

def propagateTrust (credentials : List CredentialEdge) (options : TrustPropagationOptions) :
    List PropagatedTrust :=
  if options.roots = [] then []
  else
    let graph := buildTrustGraph credentials options.roots
    sortOn (fun r => OrderDual.toDual r.trust) (graph.nodes.filterMap (propagatedTo graph options))

/-! ## §2. The trust semiring -/

theorem trustSemiring_selective : TrustSemiring.Selective where
  add_comm := max_comm
  add_assoc := max_assoc
  zero_add a := max_eq_right a.2.1
  mul_assoc a b c := Subtype.ext (mul_assoc a.1 b.1 c.1)
  one_mul a := Subtype.ext (one_mul a.1)
  mul_one a := Subtype.ext (mul_one a.1)
  mul_add a b c := by
    have hmono : Monotone (TrustSemiring.mul a) := fun x y h =>
      show a.1 * x.1 ≤ a.1 * y.1 from mul_le_mul_of_nonneg_left h a.2.1
    exact hmono.map_max
  add_mul a b c := by
    have hmono : Monotone fun x => TrustSemiring.mul x c := fun x y h =>
        show x.1 * c.1 ≤ y.1 * c.1 from mul_le_mul_of_nonneg_right h c.2.1
    exact hmono.map_max
  zero_mul a := Subtype.ext (zero_mul a.1)
  mul_zero a := Subtype.ext (mul_zero a.1)
  eq_sound a b h := eq_of_beq h
  one_add a := max_eq_left a.2.2
  selects a b := max_choice a b
  eq_complete a := beq_self_eq_true a

theorem trust_le_iff {a b : Trust} : TrustSemiring.Le a b ↔ a ≤ b := max_eq_right_iff

theorem clamped_val {weight : ℚ} (h : 0 < weight) : (clamped weight).1 = min weight 1 :=
  max_eq_right (le_min h.le zero_le_one)

/-! ## §3. The graph of the credentials -/

/-- A chain of usable credentials from an agent: the agents after it, and its product. -/
inductive Chain (credentials : List CredentialEdge) : Text → List Text → Text → ℚ → Prop
  | nil (agent : Text) : Chain credentials agent [] agent 1
  | cons {c : CredentialEdge} {rest : List Text} {agent : Text} {x : ℚ} : c ∈ credentials →
      0 < c.weight → Chain credentials c.subject rest agent x →
      Chain credentials c.issuer (c.subject :: rest) agent (min c.weight 1 * x)

/-- The best product of the chains from the roots to an agent. -/
def IsBest (credentials : List CredentialEdge) (roots : List Text) (agent : Text) (v : ℚ) : Prop :=
  (∃ root ∈ roots, ∃ rest, Chain credentials root rest agent v) ∧
    ∀ root ∈ roots, ∀ rest x, Chain credentials root rest agent x → x ≤ v

variable {credentials : List CredentialEdge} {roots : List Text}

theorem edge?_roots (a b : Text) :
    (roots.foldl addRoot (empty.addNode TRUST_SUPER_SOURCE)).edge? a b =
      if a = TRUST_SUPER_SOURCE ∧ b ∈ roots then some TrustSemiring.one else none := by
  induction roots using List.reverseRecOn with
  | nil =>
    rw [foldl_nil, edge?_addNode, if_neg (fun h => not_mem_nil h.2)]
    rfl
  | append_singleton roots root ih =>
    rw [foldl_append, foldl_cons, foldl_nil]
    unfold addRoot at ih ⊢
    rw [edge?_setEdge, ih]
    by_cases ha : a = TRUST_SUPER_SOURCE
    · by_cases hb : b = root <;> simp [ha, hb]
    · simp [ha]

variable {a agent : Text} {rest : List Text} {r : PropagatedTrust} {w : Trust}

theorem edge_buildTrustGraph {b : Text}
    (h : (buildTrustGraph credentials roots).edge? a b = some w) :
    (a = TRUST_SUPER_SOURCE ∧ b ∈ roots ∧ w = TrustSemiring.one) ∨
      ∃ c ∈ credentials, 0 < c.weight ∧ c.issuer = a ∧ c.subject = b ∧ clamped c.weight = w := by
  unfold buildTrustGraph at h
  induction credentials using List.reverseRecOn generalizing w with
  | nil =>
    rw [foldl_nil, edge?_roots] at h
    split at h
    · next hroot =>
      cases h
      exact .inl ⟨hroot.1, hroot.2, rfl⟩
    · cases h
  | append_singleton credentials c ih =>
    have hold : (credentials.foldl addCredential (roots.foldl addRoot
        (empty.addNode TRUST_SUPER_SOURCE))).edge? a b = some w →
        (a = TRUST_SUPER_SOURCE ∧ b ∈ roots ∧ w = TrustSemiring.one) ∨ ∃ c' ∈ credentials ++ [c],
          0 < c'.weight ∧ c'.issuer = a ∧ c'.subject = b ∧ clamped c'.weight = w := by
      intro h
      rcases ih h with hroot | ⟨c', hc', hrest⟩
      · exact .inl hroot
      · exact .inr ⟨c', mem_append_left [c] hc', hrest⟩
    have hlast : c ∈ credentials ++ [c] := by simp
    rw [foldl_append, foldl_cons, foldl_nil] at h
    unfold addCredential at h
    split at h
    · exact hold h
    next hpos =>
    rw [not_le] at hpos
    rw [edge?_addEdge] at h
    split at h
    · next heq =>
      obtain ⟨rfl, rfl⟩ := heq
      have hw := Option.some.inj h
      split at hw
      · next existing hex =>
        -- of two parallel edges one is selected
        rcases max_choice existing (clamped c.weight) with hleft | hright
        · have heq : existing = w := hleft.symm.trans hw
          rw [heq] at hex
          exact hold hex
        · exact .inr ⟨c, hlast, hpos, rfl, rfl, hright.symm.trans hw⟩
      · exact .inr ⟨c, hlast, hpos, rfl, rfl, hw⟩
    · exact hold h

variable {graph : WeightedDigraph Text Trust}

theorem edge_addCredential (c : CredentialEdge) {b : Text} (h : graph.edge? a b = some w) :
    ∃ w', (addCredential graph c).edge? a b = some w' ∧ w ≤ w' := by
  unfold addCredential
  split
  · exact ⟨w, h, le_rfl⟩
  · rw [edge?_addEdge]
    split
    · next heq =>
      obtain ⟨rfl, rfl⟩ := heq
      rw [h]
      exact ⟨_, rfl, le_max_left _ _⟩
    · exact ⟨w, h, le_rfl⟩

theorem edge_foldl_addCredential {a b : Text} (h : graph.edge? a b = some w) :
    ∃ w', (credentials.foldl addCredential graph).edge? a b = some w' ∧ w ≤ w' := by
  induction credentials generalizing graph w with
  | nil => exact ⟨w, h, le_rfl⟩
  | cons c credentials ih =>
    obtain ⟨w₁, h₁, hle₁⟩ := edge_addCredential c h
    obtain ⟨w₂, h₂, hle₂⟩ := ih h₁
    exact ⟨w₂, h₂, hle₁.trans hle₂⟩

variable {root : Text}

theorem edge_of_root (h : root ∈ roots) :
    (buildTrustGraph credentials roots).edge? TRUST_SUPER_SOURCE root = some TrustSemiring.one := by
  have hroot := @edge?_roots roots TRUST_SUPER_SOURCE root
  rw [if_pos ⟨rfl, h⟩] at hroot
  obtain ⟨w, hw, hle⟩ := @edge_foldl_addCredential credentials _ _ _ _ hroot
  have hone : w = TrustSemiring.one := le_antisymm w.2.2 hle
  rwa [hone] at hw

theorem edge_of_credential {c : CredentialEdge} (hc : c ∈ credentials) (hpos : 0 < c.weight) :
    ∃ w, (buildTrustGraph credentials roots).edge? c.issuer c.subject = some w ∧
      clamped c.weight ≤ w := by
  obtain ⟨before, after, rfl⟩ := append_of_mem hc
  unfold buildTrustGraph
  rw [foldl_append, foldl_cons]
  have hadd : ∀ graph : WeightedDigraph Text Trust,
      ∃ w, (addCredential graph c).edge? c.issuer c.subject = some w ∧ clamped c.weight ≤ w := by
    intro graph
    unfold addCredential
    rw [if_neg (not_le.mpr hpos), edge?_addEdge, if_pos ⟨rfl, rfl⟩]
    cases graph.edge? c.issuer c.subject with
    | none => exact ⟨_, rfl, le_rfl⟩
    | some => exact ⟨_, rfl, le_max_right _ _⟩
  obtain ⟨w₁, h₁, hle₁⟩ := hadd _
  obtain ⟨w₂, h₂, hle₂⟩ := @edge_foldl_addCredential after _ _ _ _ h₁
  exact ⟨w₂, h₂, hle₁.trans hle₂⟩

theorem built_buildTrustGraph : Built TrustSemiring (buildTrustGraph credentials roots) := by
  have hroots : ∀ graph, Built TrustSemiring graph →
      Built TrustSemiring (roots.foldl addRoot graph) := by
    induction roots with
    | nil => exact fun _ h => h
    | cons root roots ih => exact fun graph h => ih _ (.setEdge _ _ _ h)
  have hcredentials : ∀ graph, Built TrustSemiring graph →
      Built TrustSemiring (credentials.foldl addCredential graph) := by
    induction credentials with
    | nil => exact fun _ h => h
    | cons c credentials ih =>
      intro graph h
      apply ih
      unfold addCredential
      split
      · exact h
      · exact .addEdge _ _ _ h
  exact hcredentials _ (hroots _ (.addNode _ .empty))

/-! ## §4. Walks and chains -/

variable {x : ℚ}

theorem chain_pos (h : Chain credentials a rest agent x) : 0 < x := by
  induction h with
  | nil => exact one_pos
  | cons _ hpos _ ih => exact mul_pos (lt_min hpos one_pos) ih

theorem walk_of_chain {a agent : Text} {rest : List Text} (h : Chain credentials a rest agent x) :
    IsWalk (buildTrustGraph credentials roots) a rest agent ∧
      x ≤ (walkProduct TrustSemiring (buildTrustGraph credentials roots) a rest).1 := by
  induction h with
  | nil => exact ⟨rfl, le_rfl⟩
  | @cons c rest agent x hc hpos htail ih =>
    obtain ⟨w, hw, hle⟩ := @edge_of_credential credentials roots c hc hpos
    have hweight : min c.weight 1 ≤ w.1 := by
      rw [← clamped_val hpos]
      exact hle
    have hkey : c.subject ∈ ((buildTrustGraph credentials roots).neighbors c.issuer).keys := by
      rw [← JsMap.get_isSome]
      exact Option.isSome_iff_exists.mpr ⟨w, hw⟩
    refine ⟨⟨hkey, ih.1⟩, ?_⟩
    have hedge : (buildTrustGraph credentials roots).getEdge TrustSemiring c.issuer c.subject = w :=
      congrArg (fun found => found.getD TrustSemiring.zero) hw
    have hproduct : (walkProduct TrustSemiring (buildTrustGraph credentials roots) c.issuer
        (c.subject :: rest)).1 =
          w.1 * (walkProduct TrustSemiring (buildTrustGraph credentials roots) c.subject rest).1 := by
      rw [← hedge]
      rfl
    rw [hproduct]
    exact mul_le_mul hweight ih.2 (chain_pos htail).le w.2.1

theorem chain_of_walk (h : IsWalk (buildTrustGraph credentials roots) a rest agent)
    (hoff : ∀ v ∈ a :: rest, v ≠ TRUST_SUPER_SOURCE) : Chain credentials a rest agent
      (walkProduct TrustSemiring (buildTrustGraph credentials roots) a rest).1 := by
  induction rest generalizing a with
  | nil =>
    have hend : a = agent := h
    rw [hend]
    exact .nil agent
  | cons b rest ih =>
    obtain ⟨hkey, hrest⟩ := h
    obtain ⟨w, hw⟩ := Option.isSome_iff_exists.mp (JsMap.get_isSome.mpr hkey)
    rcases edge_buildTrustGraph hw with ⟨hsource, -, -⟩ | ⟨c, hc, hpos, rfl, rfl, hweight⟩
    · exact absurd hsource (hoff a mem_cons_self)
    · have htail := ih hrest fun v hv => hoff v (mem_cons_of_mem _ hv)
      have hedge : (buildTrustGraph credentials roots).getEdge TrustSemiring c.issuer c.subject =
          w := congrArg (fun found => found.getD TrustSemiring.zero) hw
      have hval : min c.weight 1 = ((buildTrustGraph credentials roots).getEdge TrustSemiring
          c.issuer c.subject).1 := by
        rw [hedge, ← hweight, clamped_val hpos]
      have hchain := Chain.cons hc hpos htail
      rwa [hval] at hchain

def SourceSilent (credentials : List CredentialEdge) : Prop :=
  ∀ c ∈ credentials, 0 < c.weight → c.issuer ≠ TRUST_SUPER_SOURCE

theorem source_mem_nodes :
    TRUST_SUPER_SOURCE ∈ (buildTrustGraph credentials roots).nodes ∨ roots = [] := by
  cases roots with
  | nil => exact .inr rfl
  | cons root roots =>
    have hedge := @edge_of_root credentials (root :: roots) root mem_cons_self
    apply Or.inl
    apply built_buildTrustGraph.wf.sources
    intro hnil
    unfold edge? at hedge
    rw [hnil] at hedge
    cases hedge

theorem walk_of_source (hsilent : SourceSilent credentials) {walk : List Text}
    (h : IsWalk (buildTrustGraph credentials roots) TRUST_SUPER_SOURCE walk agent)
    (hagent : agent ≠ TRUST_SUPER_SOURCE) : ∃ root ∈ roots, ∃ rest, walk = root :: rest ∧
      IsWalk (buildTrustGraph credentials roots) root rest agent ∧
      walkProduct TrustSemiring (buildTrustGraph credentials roots) TRUST_SUPER_SOURCE walk =
        walkProduct TrustSemiring (buildTrustGraph credentials roots) root rest := by
  cases walk with
  | nil => exact absurd h.symm hagent
  | cons root rest =>
    obtain ⟨hkey, hrest⟩ := h
    obtain ⟨w, hw⟩ := Option.isSome_iff_exists.mp (JsMap.get_isSome.mpr hkey)
    rcases edge_buildTrustGraph hw with ⟨-, hroot, hone⟩ | ⟨c, hc, hpos, hissuer, -⟩
    · refine ⟨root, hroot, rest, rfl, hrest, ?_⟩
      have hedge : (buildTrustGraph credentials roots).getEdge TrustSemiring TRUST_SUPER_SOURCE
          root = TrustSemiring.one := by
        rw [← hone]
        exact congrArg (fun found => found.getD TrustSemiring.zero) hw
      show TrustSemiring.mul _ _ = _
      rw [hedge, trustSemiring_selective.one_mul]
    · exact absurd hissuer (hsilent c hc hpos)

/-! ## §5. What is returned -/

variable {options : TrustPropagationOptions}

/-- An agent that may be returned. -/
def InScope (options : TrustPropagationOptions) (agent : Text) : Prop :=
  agent ≠ TRUST_SUPER_SOURCE ∧ (options.includeRoots = some true ∨ agent ∉ options.roots)

theorem chain_le_optimum (hroot : root ∈ roots) (h : Chain credentials root rest agent x) :
    x ≤ (optimum TrustSemiring (buildTrustGraph credentials roots) TRUST_SUPER_SOURCE agent).1 ∧
      agent ∈ (buildTrustGraph credentials roots).nodes := by
  obtain ⟨hwalk, hle⟩ := @walk_of_chain credentials roots _ _ _ _ h
  have hsource : TRUST_SUPER_SOURCE ∈ (buildTrustGraph credentials roots).nodes :=
    source_mem_nodes.resolve_right (ne_nil_of_mem hroot)
  have hedge := @edge_of_root credentials roots root hroot
  have hfull : IsWalk (buildTrustGraph credentials roots) TRUST_SUPER_SOURCE (root :: rest) agent :=
    ⟨by rw [← JsMap.get_isSome]; exact Option.isSome_iff_exists.mpr ⟨_, hedge⟩, hwalk⟩
  have hagent : agent ∈ (buildTrustGraph credentials roots).nodes := by
    have hend : agent ∈ root :: rest := by
      clear hle hsource hedge hfull h hroot
      induction rest generalizing root with
      | nil =>
        have hsame : root = agent := hwalk
        rw [hsame]
        exact mem_cons_self
      | cons b rest ih => exact mem_cons_of_mem _ (ih hwalk.2)
    exact mem_nodes_of_isWalk built_buildTrustGraph.wf hfull agent hend
  refine ⟨hle.trans ?_, hagent⟩
  have hbound := trust_le_iff.mp
    (walkProduct_le trustSemiring_selective built_buildTrustGraph hsource hagent hfull)
  have hone : (buildTrustGraph credentials roots).getEdge TrustSemiring TRUST_SUPER_SOURCE root =
      TrustSemiring.one := congrArg (fun found => found.getD TrustSemiring.zero) hedge
  have hproduct : walkProduct TrustSemiring (buildTrustGraph credentials roots) TRUST_SUPER_SOURCE
      (root :: rest) = walkProduct TrustSemiring (buildTrustGraph credentials roots) root rest := by
    show TrustSemiring.mul _ _ = _
    rw [hone, trustSemiring_selective.one_mul]
  rwa [hproduct] at hbound

theorem propagatedTo_spec (hsilent : SourceSilent credentials) (hroots : roots ≠ [])
    (h : propagatedTo (buildTrustGraph credentials roots) ⟨roots, options.minTrust,
      options.includeRoots⟩ agent = some r) : r.agentId = agent ∧ agent ≠ TRUST_SUPER_SOURCE ∧
      (options.includeRoots = some true ∨ agent ∉ roots) ∧ options.least ≤ r.trust ∧
      r.trust =
        (optimum TrustSemiring (buildTrustGraph credentials roots) TRUST_SUPER_SOURCE agent).1 ∧
      ∃ root ∈ roots, ∃ rest, r.path = root :: rest ∧ r.path.Nodup ∧ r.depth = rest.length ∧
        Chain credentials root rest agent r.trust := by
  have hsource := (@source_mem_nodes credentials roots).resolve_right hroots
  unfold propagatedTo at h
  split at h
  · cases h
  next hagent =>
  split at h
  · cases h
  next hscope =>
  split at h
  · cases h
  next value path htrace =>
  split at h
  · cases h
  next hleast =>
  split at h
  · cases h
  cases h
  obtain ⟨-, hspec⟩ := optimalPathTrace_spec trustSemiring_selective built_buildTrustGraph hsource
    agent
  obtain ⟨hvalue, hnodup, walk, rfl, hwalk, hproduct⟩ := hspec value path htrace
  obtain ⟨root, hroot, rest, rfl, hrest, heq⟩ := walk_of_source hsilent hwalk hagent
  obtain ⟨hoff, hnodup⟩ := nodup_cons.mp hnodup
  have hchain := chain_of_walk hrest fun v hv heq => hoff (heq ▸ hv)
  rw [← heq, hproduct] at hchain
  refine ⟨rfl, hagent, ?_, not_lt.mp hleast, by rw [hvalue], root, hroot, rest, rfl, hnodup, by simp,
    hchain⟩
  by_cases hin : agent ∈ roots
  · left
    cases hinclude : options.includeRoots with
    | none => exact absurd ⟨by rw [hinclude]; rfl, hin⟩ hscope
    | some b =>
      cases b with
      | true => rfl
      | false => exact absurd ⟨by rw [hinclude]; rfl, hin⟩ hscope
  · exact .inr hin

theorem mem_propagateTrust : r ∈ propagateTrust credentials options ↔
    options.roots ≠ [] ∧ ∃ agent ∈ (buildTrustGraph credentials options.roots).nodes,
      propagatedTo (buildTrustGraph credentials options.roots) options agent = some r := by
  unfold propagateTrust
  split
  · next hnil => simp [hnil]
  · next hne => rw [mem_sortOn, mem_filterMap]; simp [hne]

theorem isBest_optimum (hsilent : SourceSilent credentials)
    (hroot : root ∈ roots) (h : Chain credentials root rest agent x)
    (hagent : agent ≠ TRUST_SUPER_SOURCE) (hx : 0 < x) : IsBest credentials roots agent
      (optimum TrustSemiring (buildTrustGraph credentials roots) TRUST_SUPER_SOURCE agent).1 := by
  have hsource := (@source_mem_nodes credentials roots).resolve_right (ne_nil_of_mem hroot)
  refine ⟨?_, fun root hroot rest y hy => (chain_le_optimum hroot hy).1⟩
  obtain ⟨hnone, hspec⟩ := optimalPathTrace_spec trustSemiring_selective
    (@built_buildTrustGraph credentials roots) hsource agent
  cases htrace : optimalPathTrace TrustSemiring (buildTrustGraph credentials roots)
      TRUST_SUPER_SOURCE agent with
  | none =>
    have hzero := congrArg Subtype.val (hnone.mp htrace).1
    have hle := (chain_le_optimum hroot h).1
    rw [hzero] at hle
    exact absurd hx (not_lt.mpr hle)
  | some found =>
    obtain ⟨hvalue, hnodup, walk, hpath, hwalk, hproduct⟩ := hspec found.1 found.2 htrace
    rw [hpath] at hnodup
    obtain ⟨root', hroot', rest', rfl, hrest, heq⟩ := walk_of_source hsilent hwalk hagent
    have hchain := chain_of_walk hrest fun v hv heq => (nodup_cons.mp hnodup).1 (heq ▸ hv)
    rw [← heq, hproduct, hvalue] at hchain
    exact ⟨root', hroot', rest', hchain⟩

theorem returned_iff (hsilent : SourceSilent credentials) (hscope : InScope options agent) (v : ℚ) :
    (∃ r ∈ propagateTrust credentials options, r.agentId = agent ∧ r.trust = v) ↔
      options.least ≤ v ∧ IsBest credentials options.roots agent v := by
  constructor
  · rintro ⟨r, hr, rfl, rfl⟩
    obtain ⟨hne, agent, -, hto⟩ := mem_propagateTrust.mp hr
    obtain ⟨rfl, hagent, -, hleast, htrust, root, hroot, rest, -, -, -, hchain⟩ :=
      propagatedTo_spec hsilent hne hto
    rw [htrust] at hleast hchain ⊢
    exact ⟨hleast, isBest_optimum hsilent hroot hchain hagent (chain_pos hchain)⟩
  · rintro ⟨hleast, ⟨root, hroot, rest, hchain⟩, hbest⟩
    have hne := ne_nil_of_mem hroot
    have hsource := (@source_mem_nodes credentials options.roots).resolve_right hne
    obtain ⟨hle, hnode⟩ := chain_le_optimum hroot hchain
    obtain ⟨⟨root', hroot', rest', hchain'⟩, -⟩ :=
      isBest_optimum hsilent hroot hchain hscope.1 (chain_pos hchain)
    have hvalue : (optimum TrustSemiring (buildTrustGraph credentials options.roots)
        TRUST_SUPER_SOURCE agent).1 = v := le_antisymm (hbest root' hroot' rest' _ hchain') hle
    obtain ⟨hnone, hspec⟩ := optimalPathTrace_spec trustSemiring_selective
      (@built_buildTrustGraph credentials options.roots) hsource agent
    cases htrace : optimalPathTrace TrustSemiring (buildTrustGraph credentials options.roots)
        TRUST_SUPER_SOURCE agent with
    | none =>
      have hzero := congrArg Subtype.val (hnone.mp htrace).1
      rw [hvalue] at hzero
      exact absurd (chain_pos hchain) (not_lt.mpr hzero.le)
    | some found =>
      obtain ⟨hfound, -, walk, hpath, hwalk, -⟩ := hspec found.1 found.2 htrace
      have htail : found.2.tail ≠ [] := by
        rw [hpath]
        intro hnil
        rw [tail_cons] at hnil
        rw [hnil] at hwalk
        exact hscope.1 (hwalk : TRUST_SUPER_SOURCE = agent).symm
      have hskip : ¬ (options.includeRoots.getD false = false ∧ agent ∈ options.roots) := by
        rintro ⟨hinclude, hin⟩
        rcases hscope.2 with htrue | hout
        · rw [htrue] at hinclude
          cases hinclude
        · exact hout hin
      have hmin : ¬ found.1.1 < options.least := by
        rw [hfound, hvalue, not_lt]
        exact hleast
      refine ⟨⟨agent, found.1.1, found.2.tail, found.2.tail.length - 1⟩, ?_, rfl, ?_⟩
      · refine mem_propagateTrust.mpr ⟨hne, agent, hnode, ?_⟩
        unfold propagatedTo
        rw [if_neg hscope.1, if_neg hskip, htrace]
        dsimp only
        rw [if_neg hmin, if_neg htail]
      · rw [hfound, hvalue]

theorem chain_of_returned (hsilent : SourceSilent credentials)
    (h : r ∈ propagateTrust credentials options) : InScope options r.agentId ∧
      ∃ root ∈ options.roots, ∃ rest, r.path = root :: rest ∧ r.path.Nodup ∧
        r.depth = rest.length ∧ Chain credentials root rest r.agentId r.trust := by
  obtain ⟨hne, agent, -, hto⟩ := mem_propagateTrust.mp h
  obtain ⟨rfl, hagent, hroots, -, -, hchain⟩ := propagatedTo_spec hsilent hne hto
  exact ⟨⟨hagent, hroots⟩, hchain⟩

variable {more : List CredentialEdge}

theorem Chain.mono (hmore : credentials ⊆ more)
    (h : Chain credentials a rest agent x) : Chain more a rest agent x := by
  induction h with
  | nil agent => exact .nil agent
  | cons hc hpos _ ih => exact .cons (hmore hc) hpos ih

theorem returned_mono (hsilent : SourceSilent credentials)
    (hmore : credentials ⊆ more) (hstill : SourceSilent more)
    (h : r ∈ propagateTrust credentials options) :
    ∃ r' ∈ propagateTrust more options, r'.agentId = r.agentId ∧ r.trust ≤ r'.trust := by
  obtain ⟨hscope, root, hroot, rest, -, -, -, hchain⟩ := chain_of_returned hsilent h
  obtain ⟨hleast, -⟩ := (returned_iff hsilent hscope r.trust).mp ⟨r, h, rfl, rfl⟩
  have hmono := hchain.mono hmore
  have hbest := isBest_optimum hstill hroot hmono hscope.1 (chain_pos hmono)
  have hle := (chain_le_optimum hroot hmono).1
  obtain ⟨r', hr', hagent, htrust⟩ := (returned_iff hstill hscope _).mpr ⟨hleast.trans hle, hbest⟩
  exact ⟨r', hr', hagent, by rw [htrust]; exact hle⟩

/-- As long as no usable credential is issued by the source: an agent in scope is returned with the
best product of the chains from the roots, when that is not below the minimum; the path is such a
chain, and repeats no agent; and further credentials lower no trust. -/
theorem propagated_trust (hsilent : SourceSilent credentials) :
    (∀ agent v, InScope options agent →
      ((∃ r ∈ propagateTrust credentials options, r.agentId = agent ∧ r.trust = v) ↔
        options.least ≤ v ∧ IsBest credentials options.roots agent v)) ∧
    (∀ r ∈ propagateTrust credentials options, InScope options r.agentId ∧
      ∃ root ∈ options.roots, ∃ rest, r.path = root :: rest ∧ r.path.Nodup ∧
        r.depth = rest.length ∧ Chain credentials root rest r.agentId r.trust) ∧
    ∀ more, credentials ⊆ more → SourceSilent more → ∀ r ∈ propagateTrust credentials options,
      ∃ r' ∈ propagateTrust more options, r'.agentId = r.agentId ∧ r.trust ≤ r'.trust :=
  ⟨fun _ v hscope => returned_iff hsilent hscope v, fun _ h => chain_of_returned hsilent h,
    fun _ hmore hstill _ h => returned_mono hsilent hmore hstill h⟩

def vouched : List CredentialEdge := [⟨[1], [2], 1 / 2⟩]

theorem propagated_trust_vouched :
    (∃ r ∈ propagateTrust vouched ⟨[[1]], none, none⟩, r.agentId = [2] ∧ r.trust = 1 / 2) ∧
    IsBest vouched [[1]] [2] (1 / 2) := by
  have hreturned : ∃ r ∈ propagateTrust vouched ⟨[[1]], none, none⟩,
      r.agentId = [2] ∧ r.trust = 1 / 2 :=
    ⟨⟨[2], 1 / 2, [[1], [2]], 1⟩, by decide +kernel, rfl, rfl⟩
  have hsilent : SourceSilent vouched := by
    intro c hc _
    obtain rfl := mem_singleton.mp hc
    decide
  have hscope : InScope ⟨[[1]], none, none⟩ [2] := ⟨by decide, .inr (by decide)⟩
  exact ⟨hreturned, (((propagated_trust hsilent).1 [2] (1 / 2) hscope).mp hreturned).2⟩

/-- A credential issued in the source's name makes its subject trusted, off any chain of the
roots; a root itself is left out unless asked for. -/
theorem source_vouches :
    propagateTrust [⟨TRUST_SUPER_SOURCE, [2], 1 / 2⟩] ⟨[[1]], some (1 / 100), none⟩ =
      [⟨[2], 1 / 2, [[2]], 0⟩] ∧
    propagateTrust [] ⟨[[1]], some (1 / 100), none⟩ = [] ∧ IsBest [] [[1]] [1] 1 := by
  refine ⟨by decide +kernel, by decide +kernel, ⟨[1], by simp, [], .nil [1]⟩, ?_⟩
  intro root _ rest x h
  cases h with
  | nil => exact le_rfl
  | cons hc => cases hc

end Motebit.Market
