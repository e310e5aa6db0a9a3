/-
  Motebit.Sync.Merge — CONVERSATION VERSIONS MERGED.

  Translated from `packages/sync-engine/src/conflict-resolver.ts` (`LastWriterWinsResolver`,
  `AppendOnlyMergeResolver`).

  A merged message list is a function of the messages it holds: each id once, in the order of
  `created_at` and id.  The metadata is that of the replica with the greatest key, the left one of
  equals.

  Main results: `winner_eq_foldl`, `merge_converges`.
-/

import Mathlib.Data.String.Basic
import Mathlib.Tactic.Linarith
import Motebit.Lib.Json
import Motebit.Sync.Stores

namespace Motebit.Sync

open Motebit.Lib List
open SyncConversationMessage

/-! ## §1. The resolvers -/

inductive ConflictStrategy
  | local_wins
  | remote_wins
  | merge

structure ConflictResult (T : Type) where
  resolved : T
  strategy : ConflictStrategy
  conflicted : Bool

structure Versioned where
  version : ℚ
  timestamp : ℚ
  device_id : Text

/-- `T & Versioned`. -/
structure Version (T : Type) extends Versioned where
  value : T

variable {T : Type}

/-- `pickWinner` takes the local side. -/
def localWins (mine remote : Versioned) : Prop :=
  if mine.version ≠ remote.version then mine.version > remote.version
  else if mine.timestamp ≠ remote.timestamp then mine.timestamp > remote.timestamp
  else mine.device_id ≥ remote.device_id

instance (mine remote : Versioned) : Decidable (localWins mine remote) := by
  unfold localWins
  infer_instance

def pickWinner (mine remote : Version T) : Version T :=
  if localWins mine.toVersioned remote.toVersioned then mine else remote

namespace LastWriterWinsResolver

def resolve (mine remote : Version T) : ConflictResult T :=
  if mine.version = remote.version ∧ mine.timestamp = remote.timestamp ∧
      mine.device_id = remote.device_id then
    ⟨mine.value, .local_wins, false⟩
  else
    ⟨(pickWinner mine remote).value,
      if localWins mine.toVersioned remote.toVersioned then .local_wins else .remote_wins,
      mine.version = remote.version && mine.device_id ≠ remote.device_id⟩

end LastWriterWinsResolver

structure ConversationWithMessages where
  conversation : SyncConversation
  messages : List SyncConversationMessage

section

variable (localeCompare : String → String → Int)

/-- The comparator of the sort. -/
def compareMessages (a b : SyncConversationMessage) : ℚ :=
  if a.created_at ≠ b.created_at then a.created_at - b.created_at
  else localeCompare a.message_id b.message_id

def messageMap (mine remote : List SyncConversationMessage) :
    JsMap String SyncConversationMessage :=
  remote.foldl (fun (map : JsMap String SyncConversationMessage) msg =>
      if (map.get msg.message_id).isSome then map else map.set msg.message_id msg)
    (mine.foldl (fun (map : JsMap String SyncConversationMessage) msg =>
      map.set msg.message_id msg) [])

def mergedMessages (mine remote : List SyncConversationMessage) : List SyncConversationMessage :=
  ((messageMap mine remote).map Prod.snd).insertionSort fun a b =>
    compareMessages localeCompare a b ≤ 0

namespace AppendOnlyMergeResolver

def resolve (mine remote : Version ConversationWithMessages) :
    ConflictResult ConversationWithMessages :=
  let metadataResult := LastWriterWinsResolver.resolve
    ⟨mine.toVersioned, mine.value.conversation⟩ ⟨remote.toVersioned, remote.value.conversation⟩
  let mergedMessages := mergedMessages localeCompare mine.value.messages remote.value.messages
  let lacks (ours theirs : List SyncConversationMessage) : Bool :=
    ours.any fun m => m.message_id ∉ theirs.map SyncConversationMessage.message_id
  let isMerge := lacks mine.value.messages remote.value.messages &&
    lacks remote.value.messages mine.value.messages
  ⟨⟨{ metadataResult.resolved with message_count := mergedMessages.length }, mergedMessages⟩,
    if isMerge then .merge else metadataResult.strategy, isMerge || metadataResult.conflicted⟩

end AppendOnlyMergeResolver

end

/-! ## §2. The last writer -/

def Versioned.key (v : Versioned) : ℚ ×ₗ ℚ ×ₗ Text := toLex (v.version, toLex (v.timestamp, v.device_id))

theorem localWins_iff (mine remote : Versioned) : localWins mine remote ↔ remote.key ≤ mine.key := by
  unfold localWins Versioned.key
  rw [Prod.Lex.toLex_le_toLex, Prod.Lex.toLex_le_toLex]
  split_ifs with hversion htimestamp
  · simp [Ne.symm hversion]
  · simp [not_not.mp hversion, Ne.symm htimestamp]
  · simp [not_not.mp hversion, not_not.mp htimestamp]

theorem pickWinner_eq (x y : Version T) : pickWinner x y = if y.key ≤ x.key then x else y := by
  unfold pickWinner
  simp only [localWins_iff]

theorem pickWinner_comm {x y : Version T} (h : x.key ≠ y.key) : pickWinner x y = pickWinner y x := by
  rw [pickWinner_eq, pickWinner_eq]
  rcases lt_or_gt_of_ne h with hlt | hlt
  · rw [if_neg hlt.not_ge, if_pos hlt.le]
  · rw [if_pos hlt.le, if_neg hlt.not_ge]

theorem pickWinner_assoc (x y z : Version T) :
    pickWinner (pickWinner x y) z = pickWinner x (pickWinner y z) := by
  simp only [pickWinner_eq]
  by_cases hxy : y.key ≤ x.key <;> by_cases hyz : z.key ≤ y.key
  · simp [hxy, hyz, hyz.trans hxy]
  · simp [hxy, hyz]
  · simp [hxy, hyz]
  · have hxz : ¬ z.key ≤ x.key := fun hle => hyz (hle.trans (not_le.mp hxy).le)
    simp [hxy, hyz, hxz]

theorem resolve_resolved (x y : Version T) :
    (LastWriterWinsResolver.resolve x y).resolved = (pickWinner x y).value := by
  unfold LastWriterWinsResolver.resolve
  split
  · next heq =>
    have hkey : y.key ≤ x.key := by
      unfold Versioned.key
      rw [heq.1, heq.2.1, heq.2.2]
    rw [pickWinner_eq, if_pos hkey]
  · rfl

/-- Replicas merged pairwise, in some order and grouping. -/
inductive Merging (T : Type)
  | replica (v : Version T)
  | merge (l r : Merging T)

def Merging.winner : Merging T → Version T
  | replica v => v
  | merge l r => pickWinner l.winner r.winner

/-- The first replica, and the others. -/
def Merging.replicas : Merging T → Version T × List (Version T)
  | replica v => (v, [])
  | merge l r => (l.replicas.1, l.replicas.2 ++ r.replicas.1 :: r.replicas.2)

/-- **Grouping does not matter.** -/
theorem winner_eq_foldl (t : Merging T) : t.winner = t.replicas.2.foldl pickWinner t.replicas.1 := by
  have hassoc : ∀ (l : List (Version T)) (x y : Version T),
      l.foldl pickWinner (pickWinner x y) = pickWinner x (l.foldl pickWinner y) := by
    intro l
    induction l with
    | nil => exact fun _ _ => rfl
    | cons z l ih =>
      intro x y
      rw [foldl_cons, foldl_cons, pickWinner_assoc, ih]
  induction t with
  | replica => rfl
  | merge l r ihl ihr =>
    show pickWinner l.winner r.winner =
      (l.replicas.2 ++ r.replicas.1 :: r.replicas.2).foldl pickWinner l.replicas.1
    rw [foldl_append, foldl_cons, ← ihl, hassoc, ← ihr]

/-! ## §3. The messages -/

/-- The comparator orders the ids. -/
structure Orders (localeCompare : String → String → Int) : Prop where
  total : ∀ a b, localeCompare a b ≤ 0 ∨ localeCompare b a ≤ 0
  antisymm : ∀ a b, localeCompare a b ≤ 0 → localeCompare b a ≤ 0 → a = b
  trans : ∀ a b c, localeCompare a b ≤ 0 → localeCompare b c ≤ 0 → localeCompare a c ≤ 0

/-- An id tells the message. -/
def Immutable (l : List SyncConversationMessage) : Prop :=
  ∀ m ∈ l, ∀ n ∈ l, m.message_id = n.message_id → m = n

/-- Each id once, in order. -/
structure Canonical (localeCompare : String → String → Int) (l : List SyncConversationMessage) :
    Prop where
  distinct : (l.map SyncConversationMessage.message_id).Nodup
  sorted : l.Pairwise fun a b => compareMessages localeCompare a b ≤ 0

variable {localeCompare : String → String → Int} {a b c : List SyncConversationMessage}

theorem compareMessages_le {m n : SyncConversationMessage} :
    compareMessages localeCompare m n ≤ 0 ↔ m.created_at < n.created_at ∨
      m.created_at = n.created_at ∧ localeCompare m.message_id n.message_id ≤ 0 := by
  unfold compareMessages
  split
  · next hne =>
    rw [sub_nonpos, le_iff_lt_or_eq]
    simp [hne]
  · next heq =>
    rw [not_not] at heq
    simp [heq]

/-- **A canonical list is a function of its messages.** -/
theorem Canonical.ext (horders : Orders localeCompare) (ha : Canonical localeCompare a)
    (hb : Canonical localeCompare b) (hmem : ∀ m, m ∈ a ↔ m ∈ b) : a = b := by
  have hperm : a.Perm b :=
    (perm_ext_iff_of_nodup ha.distinct.of_map hb.distinct.of_map).mpr hmem
  refine hperm.eq_of_pairwise (fun m n hm hn hmn hnm => ?_) ha.sorted hb.sorted
  rw [compareMessages_le] at hmn hnm
  have hid : m.message_id = n.message_id := by
    rcases hmn with hlt | ⟨heq, hle⟩
    · rcases hnm with hlt' | ⟨heq', -⟩
      · exact absurd hlt hlt'.not_gt
      · exact absurd heq'.symm hlt.ne
    · rcases hnm with hlt' | ⟨-, hle'⟩
      · exact absurd heq.symm hlt'.ne
      · exact horders.antisymm _ _ hle hle'
  exact inj_on_of_nodup_map ha.distinct hm ((hmem n).mpr hn) hid

/-- Messages gathered one by one: what is not written is there already. -/
theorem listed_foldl {ok : SyncConversationMessage → Prop}
    {f : JsMap String SyncConversationMessage → SyncConversationMessage →
      JsMap String SyncConversationMessage}
    (hf : ∀ map msg, f map msg = map.set msg.message_id msg ∨
      f map msg = map ∧ (map.get msg.message_id).isSome = true)
    (l : List SyncConversationMessage) {map : JsMap String SyncConversationMessage}
    (h : Listed message_id ok map) (hl : ∀ m ∈ l, ok m) :
    Listed message_id ok (l.foldl f map) ∧
      ∀ id, (∃ m ∈ l, m.message_id = id) ∨ (map.get id).isSome = true →
        ((l.foldl f map).get id).isSome = true := by
  induction l generalizing map with
  | nil => exact ⟨h, fun id hid => hid.elim (fun ⟨_, hm, _⟩ => absurd hm not_mem_nil) fun h => h⟩
  | cons msg l ih =>
    have hone : Listed message_id ok (f map msg) ∧
        ∀ id, msg.message_id = id ∨ (map.get id).isSome = true →
          ((f map msg).get id).isSome = true := by
      rcases hf map msg with hset | ⟨hkept, hin⟩
      · rw [hset]
        refine ⟨h.set (hl msg mem_cons_self), fun id hid => ?_⟩
        rw [JsMap.get_set]
        split
        · rfl
        · next hne => exact hid.resolve_left (Ne.symm hne)
      · rw [hkept]
        refine ⟨h, fun id hid => ?_⟩
        rcases hid with rfl | hid
        · exact hin
        · exact hid
    obtain ⟨hlisted, hall⟩ := ih hone.1 fun m hm => hl m (mem_cons_of_mem _ hm)
    refine ⟨hlisted, fun id hid => hall id ?_⟩
    rcases hid with ⟨m, hm, hid⟩ | hid
    · rcases mem_cons.mp hm with rfl | hm
      · exact .inr (hone.2 id (.inl hid))
      · exact .inl ⟨m, hm, hid⟩
    · exact .inr (hone.2 id (.inr hid))

theorem messageMap_spec (h : Immutable (a ++ b)) :
    Listed message_id (· ∈ a ++ b) (messageMap a b) ∧
      ∀ m, m ∈ (messageMap a b).map Prod.snd ↔ m ∈ a ++ b := by
  have hmine := listed_foldl (f := fun map msg => map.set msg.message_id msg)
    (fun _ _ => .inl rfl) a (@Listed.nil _ _ (· ∈ a ++ b)) fun m hm => mem_append_left b hm
  obtain ⟨hlisted, hall⟩ := listed_foldl (f := fun map msg =>
      if (map.get msg.message_id).isSome then map else map.set msg.message_id msg)
    (fun map msg => by
      by_cases hin : (map.get msg.message_id).isSome = true
      · exact .inr ⟨if_pos hin, hin⟩
      · exact .inl (if_neg hin)) b hmine.1 fun m hm => mem_append_right a hm
  refine ⟨hlisted, fun m => ⟨fun hm => (hlisted.get hm).2, fun hm => ?_⟩⟩
  have hsome : ((messageMap a b).get m.message_id).isSome = true := by
    refine hall _ ((mem_append.mp hm).elim (fun hm => .inr ?_) fun hm => .inl ⟨m, hm, rfl⟩)
    exact hmine.2 _ (.inl ⟨m, hm, rfl⟩)
  obtain ⟨n, hn⟩ := Option.isSome_iff_exists.mp hsome
  have hin := mem_values hn
  rwa [h m hm n (hlisted.get hin).2 (hlisted.id_of_get hn)]

theorem mem_mergedMessages (h : Immutable (a ++ b)) (m : SyncConversationMessage) :
    m ∈ mergedMessages localeCompare a b ↔ m ∈ a ∨ m ∈ b := by
  unfold mergedMessages
  rw [mem_insertionSort, (messageMap_spec h).2, mem_append]

theorem mergedMessages_canonical (horders : Orders localeCompare) (h : Immutable (a ++ b)) :
    Canonical localeCompare (mergedMessages localeCompare a b) := by
  obtain ⟨hlisted, -⟩ := messageMap_spec h
  constructor
  · have hids : ((messageMap a b).map Prod.snd).map message_id = (messageMap a b).keys := by
      rw [map_map]
      exact map_congr_left fun e he => ((hlisted.rows e he).1).symm
    refine (((perm_insertionSort _ _).map _).nodup_iff).mpr ?_
    rw [hids]
    exact hlisted.nodup
  · have htrans : IsTrans SyncConversationMessage fun m n =>
        compareMessages localeCompare m n ≤ 0 := by
      refine ⟨fun l m n hlm hmn => ?_⟩
      rw [compareMessages_le] at *
      rcases hlm with hlt | ⟨heq, hle⟩
      · exact .inl (hmn.elim hlt.trans fun hmn => hmn.1 ▸ hlt)
      · rw [heq]
        exact hmn.imp_right fun hmn => ⟨hmn.1, horders.trans _ _ _ hle hmn.2⟩
    have htotal : Std.Total fun m n : SyncConversationMessage =>
        compareMessages localeCompare m n ≤ 0 := by
      refine ⟨fun m n => ?_⟩
      rw [compareMessages_le, compareMessages_le]
      rcases lt_trichotomy m.created_at n.created_at with hlt | heq | hlt
      · exact .inl (.inl hlt)
      · exact (horders.total m.message_id n.message_id).imp (fun hle => .inr ⟨heq, hle⟩)
          fun hle => .inr ⟨heq.symm, hle⟩
      · exact .inr (.inl hlt)
    exact pairwise_insertionSort _ _

theorem Immutable.mono (h : Immutable a) (hsub : ∀ m ∈ b, m ∈ a) : Immutable b :=
  fun m hm n hn => h m (hsub m hm) n (hsub n hn)

section

variable (horders : Orders localeCompare)
include horders

theorem mergedMessages_comm (h : Immutable (a ++ b)) :
    mergedMessages localeCompare a b = mergedMessages localeCompare b a := by
  have hba : Immutable (b ++ a) := h.mono (by simp [or_comm])
  refine (mergedMessages_canonical horders h).ext horders (mergedMessages_canonical horders hba) ?_
  intro m
  rw [mem_mergedMessages h, mem_mergedMessages hba, or_comm]

theorem mergedMessages_assoc (h : Immutable (a ++ b ++ c)) :
    mergedMessages localeCompare (mergedMessages localeCompare a b) c =
      mergedMessages localeCompare a (mergedMessages localeCompare b c) := by
  have hab : Immutable (a ++ b) := h.mono fun m hm => mem_append_left c hm
  have hbc : Immutable (b ++ c) := by
    rw [append_assoc] at h
    exact h.mono fun m hm => mem_append_right a hm
  have hleft : Immutable (mergedMessages localeCompare a b ++ c) :=
    h.mono (by simp [mem_mergedMessages hab, or_assoc])
  have hright : Immutable (a ++ mergedMessages localeCompare b c) :=
    h.mono (by simp [mem_mergedMessages hbc])
  refine (mergedMessages_canonical horders hleft).ext horders
    (mergedMessages_canonical horders hright) fun m => ?_
  rw [mem_mergedMessages hleft, mem_mergedMessages hright, mem_mergedMessages hab,
    mem_mergedMessages hbc, or_assoc]

theorem mergedMessages_self (h : Immutable a) :
    mergedMessages localeCompare a a = a ↔ Canonical localeCompare a := by
  have haa : Immutable (a ++ a) := h.mono (by simp)
  have hcanonical := mergedMessages_canonical horders haa
  constructor
  · intro heq
    rwa [heq] at hcanonical
  · intro ha
    refine hcanonical.ext horders ha fun m => ?_
    rw [mem_mergedMessages haa, or_self]

end

/-! ## §4. Convergence -/

section

variable (localeCompare)

/-- Two versions merged, the result under some metadata. -/
def mergedVersion (v : Versioned) (x y : Version ConversationWithMessages) :
    Version ConversationWithMessages :=
  ⟨v, (AppendOnlyMergeResolver.resolve localeCompare x y).resolved⟩

/-- What merging does to the messages of three versions. -/
structure MergeLaws (a b c : Version ConversationWithMessages) : Prop where
  comm : ∀ v, (mergedVersion localeCompare v a b).value.messages =
    (mergedVersion localeCompare v b a).value.messages
  assoc : ∀ u v w,
    (mergedVersion localeCompare w (mergedVersion localeCompare u a b) c).value.messages =
    (mergedVersion localeCompare w a (mergedVersion localeCompare v b c)).value.messages
  idem : ∀ v, (mergedVersion localeCompare v a a).value.messages = a.value.messages ↔
    Canonical localeCompare a.value.messages
  union : ∀ v m, m ∈ (mergedVersion localeCompare v a b).value.messages ↔
    m ∈ a.value.messages ∨ m ∈ b.value.messages
  canonical : ∀ v, Canonical localeCompare (mergedVersion localeCompare v a b).value.messages

end

/-- The last writer is the same from both sides and in any grouping. -/
structure WriterLaws (T : Type) : Prop where
  sides : ∀ x y : Version T, x.key ≠ y.key → pickWinner x y = pickWinner y x ∧
    (LastWriterWinsResolver.resolve x y).resolved = (LastWriterWinsResolver.resolve y x).resolved
  groups : ∀ t : Merging T, t.winner = t.replicas.2.foldl pickWinner t.replicas.1

/-- **Merging converges.** -/
theorem merge_converges (horders : Orders localeCompare) (T : Type)
    (a b c : Version ConversationWithMessages)
    (h : Immutable (a.value.messages ++ b.value.messages ++ c.value.messages)) :
    MergeLaws localeCompare a b c ∧ WriterLaws T := by
  have hab : Immutable (a.value.messages ++ b.value.messages) :=
    h.mono fun m hm => mem_append_left _ hm
  have ha : Immutable a.value.messages := hab.mono fun m hm => mem_append_left _ hm
  constructor
  · exact ⟨fun _ => mergedMessages_comm horders hab, fun _ _ _ => mergedMessages_assoc horders h,
      fun _ => mergedMessages_self horders ha, fun _ => mem_mergedMessages hab,
      fun _ => mergedMessages_canonical horders hab⟩
  · refine ⟨fun x y hne => ?_, winner_eq_foldl⟩
    rw [resolve_resolved, resolve_resolved, pickWinner_comm hne]
    exact ⟨rfl, rfl⟩

instance (l : List SyncConversationMessage) : Decidable (Immutable l) := by
  unfold Immutable
  infer_instance

def byText (a b : String) : Int := if a < b then -1 else if a = b then 0 else 1

theorem byText_orders : Orders byText := by
  have hle : ∀ a b, byText a b ≤ 0 ↔ a ≤ b := by
    intro a b
    unfold byText
    split_ifs with hlt heq
    · simp [hlt.le]
    · simp [heq]
    · simp [lt_of_le_of_ne (not_lt.mp hlt) (Ne.symm heq)]
  constructor <;> intro a b <;> simp only [hle]
  · exact le_total a b
  · exact le_antisymm
  · exact fun _ => le_trans

def twoMessages : Version ConversationWithMessages :=
  ⟨⟨1, 1, []⟩, ⟨⟨"c", "m", 0, 0, none, none, 2⟩,
    [⟨"2", "c", "m", "user", "", none, none, 2, 0, none⟩,
      ⟨"1", "c", "m", "user", "", none, none, 1, 0, none⟩]⟩⟩

/-- **Not a list's own merge**: messages out of order are put in order. -/
theorem merge_reorders : Orders byText ∧ Immutable twoMessages.value.messages ∧
    (AppendOnlyMergeResolver.resolve byText twoMessages twoMessages).resolved.messages ≠
      twoMessages.value.messages :=
  ⟨byText_orders, by decide +kernel, by decide +kernel⟩

theorem merge_converges_twoMessages : MergeLaws byText twoMessages twoMessages twoMessages ∧
    WriterLaws Nat :=
  merge_converges byText_orders Nat twoMessages twoMessages twoMessages (by decide +kernel)

end Motebit.Sync
