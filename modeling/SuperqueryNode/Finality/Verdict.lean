import SuperqueryNode.Finality.Tracker
import SuperqueryNode.Lib.Descent
import SuperqueryNode.Lib.Enumeration

namespace SuperqueryNode.Finality
open Unsigned Fallible Enumeration Descent ChainApi Store CheckpointStore

structure CanonicalChain where
  tip : Nat
  header : Nat → Header
  linked : ∀ h, h < tip → (header (h + 1)).parentHash = some (header h).hash

namespace CanonicalChain

def hashAt (c : CanonicalChain) (height : Nat) : Option String :=
  if height ≤ c.tip then some (c.header height).hash else none

def headerAt (c : CanonicalChain) : HeaderAt := fun height =>
  if height ≤ c.tip then .ok (c.header height) else .error (.blockUnavailable height)

theorem hashAt_eq_some {c : CanonicalChain} {height : Nat} {hash : String} :
    c.hashAt height = some hash ↔ height ≤ c.tip ∧ (c.header height).hash = hash := by
  simp [hashAt]

theorem comparisonOf_headerAt (c : CanonicalChain) (x : StoredHeader) :
    comparisonOf c.headerAt x = ⟨x.height, x.hash, c.hashAt x.height⟩ := by
  unfold comparisonOf headerAt hashAt
  split_ifs <;> rfl

theorem not_retryable (c : CanonicalChain) {height : Nat} {e : ChainError}
    (h : c.headerAt height = .error e) : e.isRetryable = false := by
  rw [headerAt] at h
  split_ifs at h
  cases h
  rfl

end CanonicalChain

structure StoredChain (s : Schema) (tip : BlockPtr) (floor : Nat) where
  oldest : Nat
  block : Nat → BlockRow
  floor_le : floor ≤ oldest
  oldest_le : oldest ≤ tip.height
  stored : ∀ h, oldest ≤ h → h ≤ tip.height → s.blocks.rows[(h : Int)]? = some (block h)
  missing : ∀ h, floor ≤ h → h < oldest → s.blocks.rows[(h : Int)]? = none
  linked : ∀ h, oldest ≤ h → h < tip.height →
    (block (h + 1)).parentHash = some (block h).hash
  tipHash : (block tip.height).hash = tip.hash

section Verdict
variable {s : Schema} {tip : BlockPtr} {floor : Nat}

def OnCanonical (w : StoredChain s tip floor) (c : CanonicalChain) (h : Nat) : Prop :=
  c.hashAt h = some (w.block h).hash

instance (w : StoredChain s tip floor) (c : CanonicalChain) : DecidablePred (OnCanonical w c) :=
  fun h => inferInstanceAs (Decidable (c.hashAt h = some (w.block h).hash))

def HashesDetermine (w : StoredChain s tip floor) (c : CanonicalChain) : Prop :=
  ∀ h, w.oldest ≤ h → h ≤ tip.height → h ≤ c.tip → (w.block h).hash = (c.header h).hash →
    (w.block h).parentHash = (c.header h).parentHash

structure RewindExact (w : StoredChain s tip floor) (c : CanonicalChain) (ancestor : BlockPtr)
    (depth : Nat) : Prop where
  forked : c.hashAt tip.height ≠ some tip.hash
  oldest_le : w.oldest ≤ ancestor.height
  le_tip : ancestor.height ≤ tip.height
  stored : (w.block ancestor.height).hash = ancestor.hash
  discarded : depth = tip.height - ancestor.height
  kept : ∀ h, w.oldest ≤ h → h ≤ ancestor.height → OnCanonical w c h
  diverged : ∀ h, ancestor.height < h → h ≤ tip.height → ¬OnCanonical w c h

def Exact (w : StoredChain s tip floor) (c : CanonicalChain) : ReorgDecision → Prop
  | .canonical => c.hashAt tip.height = some tip.hash
  | .rewind ancestor depth => RewindExact w c ancestor depth
  | .beyondHistory oldestKnown =>
    oldestKnown = w.oldest ∧ ∀ h, w.oldest ≤ h → h ≤ tip.height → ¬OnCanonical w c h

variable {w : StoredChain s tip floor} {c : CanonicalChain}

theorem onCanonical_tip : OnCanonical w c tip.height ↔ c.hashAt tip.height = some tip.hash := by
  rw [OnCanonical, w.tipHash]

theorem onCanonical_pred (hdet : HashesDetermine w c) {h : Nat} (hlow : w.oldest ≤ h)
    (hhigh : h < tip.height) (hnext : OnCanonical w c (h + 1)) : OnCanonical w c h := by
  obtain ⟨htip, hhash⟩ := CanonicalChain.hashAt_eq_some.mp hnext
  have hparent := hdet (h + 1) (by omega) hhigh htip hhash.symm
  rw [w.linked h hlow hhigh, c.linked h (by omega)] at hparent
  exact CanonicalChain.hashAt_eq_some.mpr ⟨by omega, (Option.some.inj hparent).symm⟩

theorem onCanonical_below (hdet : HashesDetermine w c) {a b : Nat} (ha : w.oldest ≤ a)
    (hab : a ≤ b) (hb : b ≤ tip.height) (h : OnCanonical w c b) : OnCanonical w c a :=
  downward (fun _ hlow hhigh hnext => onCanonical_pred hdet hlow hhigh hnext) ha hab hb h

def storedHeaders (w : StoredChain s tip floor) : List StoredHeader :=
  (descend tip.height w.oldest).map fun h => storedHeader h (w.block h)

theorem selects_eq {stored : List StoredHeader} (h : Selects s tip.height floor stored) :
    stored = storedHeaders w := by
  have hrow : ∀ x ∈ stored, w.oldest ≤ x.height ∧ x = storedHeader x.height (w.block x.height) := by
    intro x hx
    obtain ⟨⟨hlow, hhigh⟩, row, hget, hx⟩ := (h.mem x).mp hx
    have hle : w.oldest ≤ x.height := by
      by_contra hlt
      rw [w.missing x.height hlow (by omega)] at hget
      cases hget
    rw [w.stored x.height hle hhigh] at hget
    cases hget
    exact ⟨hle, hx⟩
  have hheights : stored.map (·.height) = descend tip.height w.oldest := by
    refine eq_of_ordered (fun _ _ => Nat.lt_asymm) ?_ (descend_descending _ _) fun n => ?_
    · rw [List.pairwise_map]
      exact h.descending
    · rw [List.mem_map, mem_descend]
      constructor
      · rintro ⟨x, hx, rfl⟩
        exact ⟨(hrow x hx).1, ((h.mem x).mp hx).1.2⟩
      · rintro ⟨hlow, hhigh⟩
        have hfloor : floor ≤ n := w.floor_le.trans hlow
        exact ⟨storedHeader n (w.block n),
          (h.mem _).mpr ⟨⟨hfloor, hhigh⟩, _, w.stored n hlow hhigh, rfl⟩, rfl⟩
  have hself : stored.map (fun x => storedHeader x.height (w.block x.height)) = stored.map id :=
    List.map_congr_left fun x hx => (hrow x hx).2.symm
  rw [List.map_id] at hself
  rw [storedHeaders, ← hheights, List.map_map]
  exact hself.symm

def fullComparison (w : StoredChain s tip floor) (c : CanonicalChain) : List HeightComparison :=
  (storedHeaders w).map fun x => ⟨x.height, x.hash, c.hashAt x.height⟩

theorem fullComparison_eq : fullComparison w c =
    (descend tip.height w.oldest).map fun h => ⟨h, (w.block h).hash, c.hashAt h⟩ := by
  rw [fullComparison, storedHeaders, List.map_map]
  rfl

theorem matches_iff {h : Nat} :
    HeightComparison.matches ⟨h, (w.block h).hash, c.hashAt h⟩ = true ↔ OnCanonical w c h :=
  beq_iff_eq

theorem not_matches_above {a : Nat} (habove : ∀ h, a ≤ h → h ≤ tip.height → ¬OnCanonical w c h) :
    ∀ d ∈ (descend tip.height a).map
      fun h => (⟨h, (w.block h).hash, c.hashAt h⟩ : HeightComparison), d.matches = false := by
  intro d hd
  obtain ⟨h, hh, rfl⟩ := List.mem_map.mp hd
  rw [mem_descend] at hh
  exact Bool.eq_false_iff.mpr fun hm => habove h hh.1 hh.2 (matches_iff.mp hm)

theorem findCommonAncestor_exact (hdet : HashesDetermine w c) :
    Exact w c (findCommonAncestor (fullComparison w c)) := by
  rw [fullComparison_eq]
  rcases highest_or_none (OnCanonical w c) w.oldest tip.height with
    hnone | ⟨a, hlow, hhigh, hon, habove⟩
  · have hpass := not_matches_above hnone
    rw [descend_last w.oldest_le, List.map_append, List.map_singleton] at hpass ⊢
    rw [findCommonAncestor_beyond hpass]
    exact ⟨rfl, hnone⟩
  · obtain ⟨post, hsplit⟩ := descend_split hlow hhigh
    have hpass := not_matches_above habove
    rw [hsplit, List.map_append, List.map_cons]
    by_cases htip : a = tip.height
    · subst htip
      have hempty : descend tip.height (tip.height + 1) = [] :=
        List.eq_nil_of_length_eq_zero (by simp)
      rw [hempty, List.map_nil, List.nil_append,
        findCommonAncestor_canonical (matches_iff.mpr hon)]
      exact onCanonical_tip.mp hon
    · have hne : (descend tip.height (a + 1)).map
          (fun h => (⟨h, (w.block h).hash, c.hashAt h⟩ : HeightComparison)) ≠ [] := by
        intro hnil
        have hlen := congrArg List.length hnil
        rw [List.length_map, length_descend, List.length_nil] at hlen
        omega
      rw [findCommonAncestor_rewind hne hpass (matches_iff.mpr hon), List.length_map,
        length_descend]
      refine ⟨fun h => ?_, hlow, hhigh, rfl, ?_, ?_, habove⟩
      · exact habove tip.height (by omega) Nat.le.refl (onCanonical_tip.mpr h)
      · simp only
        omega
      · intro h hh ha
        exact onCanonical_below hdet hh ha hhigh hon

theorem rewindExact_height {a b : BlockPtr} {m n : Nat} (ha : RewindExact w c a m)
    (hb : RewindExact w c b n) : a.height ≤ b.height := by
  by_contra hlt
  exact hb.diverged a.height (by omega) ha.le_tip (ha.kept a.height ha.oldest_le Nat.le.refl)

theorem rewindExact_unique {a b : BlockPtr} {m n : Nat} (ha : RewindExact w c a m)
    (hb : RewindExact w c b n) : a = b ∧ m = n := by
  have hheight : a.height = b.height :=
    Nat.le_antisymm (rewindExact_height ha hb) (rewindExact_height hb ha)
  have hhash : a.hash = b.hash := by rw [← ha.stored, ← hb.stored, hheight]
  obtain ⟨height, hash⟩ := a
  obtain ⟨height', hash'⟩ := b
  simp only at hheight hhash
  subst hheight hhash
  exact ⟨rfl, ha.discarded.trans hb.discarded.symm⟩

theorem exact_unique {d e : ReorgDecision} (hd : Exact w c d) (he : Exact w c e) : d = e := by
  have hnone : ∀ {o : Nat}, Exact w c (.beyondHistory o) → ∀ {h}, w.oldest ≤ h →
      h ≤ tip.height → OnCanonical w c h → False :=
    fun hb _ hlow hhigh hon => hb.2 _ hlow hhigh hon
  cases d with
  | canonical =>
    cases e with
    | canonical => rfl
    | rewind ancestor depth => exact absurd hd he.forked
    | beyondHistory oldestKnown =>
      exact (hnone he w.oldest_le Nat.le.refl (onCanonical_tip.mpr hd)).elim
  | rewind ancestor depth =>
    cases e with
    | canonical => exact absurd he hd.forked
    | rewind ancestor' depth' =>
      obtain ⟨rfl, rfl⟩ := rewindExact_unique hd he
      rfl
    | beyondHistory oldestKnown =>
      exact (hnone he hd.oldest_le hd.le_tip (hd.kept _ hd.oldest_le Nat.le.refl)).elim
  | beyondHistory oldestKnown =>
    cases e with
    | canonical => exact (hnone hd w.oldest_le Nat.le.refl (onCanonical_tip.mpr he)).elim
    | rewind ancestor depth =>
      exact (hnone hd he.oldest_le he.le_tip (he.kept _ he.oldest_le Nat.le.refl)).elim
    | beyondHistory oldestKnown' => rw [hd.1, he.1]

theorem stored_bigint (w : StoredChain s tip floor) : (tip.height : Int) ≤ bigintMax :=
  s.blocks.bigint _ ((KeyedMap.mem_iff _ _).mpr ⟨_, w.stored _ w.oldest_le Nat.le.refl⟩)

end Verdict

theorem check_verdict_exact (tracker : FinalityTracker) (s : Schema) (tip : BlockPtr)
    (w : StoredChain s tip (tracker.floor tip)) (c : CanonicalChain) (hdet : HashesDetermine w c) :
    headersDescending s tip.height (tracker.floor tip) = .ok (storedHeaders w) ∧
    tracker.check c.headerAt s tip = .ok (findCommonAncestor (fullComparison w c)) ∧
    ∀ d, tracker.check c.headerAt s tip = .ok d ↔ Exact w c d := by
  have hfloor : tracker.floor tip ≤ tip.height := Nat.sub_le _ _
  obtain ⟨stored, hstored, hselects⟩ := headersDescending_spec s (stored_bigint w) hfloor
  rw [selects_eq (w := w) hselects] at hstored
  have hcheck : tracker.check c.headerAt s tip =
      .ok (findCommonAncestor (fullComparison w c)) := by
    rw [FinalityTracker.check_eq hstored, checkStored_full fun _ _ _ he => c.not_retryable he,
      funext c.comparisonOf_headerAt]
    rfl
  have hexact := findCommonAncestor_exact hdet
  refine ⟨hstored, hcheck, fun d => ⟨fun hd => ?_, fun hd => ?_⟩⟩
  · rw [hcheck] at hd
    cases hd
    exact hexact
  · rw [hcheck, exact_unique hexact hd]

def forkedBlock : Nat → BlockRow
  | 9 => ⟨"0xa", some "0x9", "final"⟩
  | 10 => ⟨"0xb", some "0xa", "unfinalized"⟩
  | _ => ⟨"0xc", some "0xb", "unfinalized"⟩

def forkedSchema : Schema where
  blocks := ((BlocksTable.empty.upsert ⟨(9 : Nat), by decide, by decide⟩ (forkedBlock 9)).upsert
    ⟨(10 : Nat), by decide, by decide⟩ (forkedBlock 10)).upsert
      ⟨(11 : Nat), by decide, by decide⟩ (forkedBlock 11)
  metadata := Metadata.empty

def forkedChain : StoredChain forkedSchema ⟨11, "0xc"⟩ 8 where
  oldest := 9
  block := forkedBlock
  floor_le := by decide
  oldest_le := by decide
  stored := by
    intro h hlow hhigh
    change h ≤ 11 at hhigh
    obtain rfl | rfl | rfl : h = 9 ∨ h = 10 ∨ h = 11 := by omega
    all_goals decide
  missing := by
    intro h hlow hlt
    obtain rfl : h = 8 := by omega
    decide
  linked := by
    intro h hlow hlt
    change h < 11 at hlt
    obtain rfl | rfl : h = 9 ∨ h = 10 := by omega
    all_goals rfl
  tipHash := rfl

def shortenedHash (h : Nat) : String :=
  if h < 9 then "0x9" else if h = 9 then "0xa" else "0xd"

def shortenedChain : CanonicalChain where
  tip := 10
  header h := ⟨h, shortenedHash h, some (shortenedHash (h - 1)), none⟩
  linked := fun _ _ => rfl

theorem shortened_chain_rewinds_two_blocks :
    Exact forkedChain shortenedChain (.rewind ⟨9, "0xa"⟩ 2) := by
  have hdet : HashesDetermine forkedChain shortenedChain := by
    intro h hlow hhigh htip hhash
    change 9 ≤ h at hlow
    change h ≤ 10 at htip
    obtain rfl | rfl : h = 9 ∨ h = 10 := by omega
    · rfl
    · exact absurd hhash (by decide)
  exact ((check_verdict_exact (FinalityTracker.new.withSearchDepth 3) forkedSchema ⟨11, "0xc"⟩
    forkedChain shortenedChain hdet).2.2 _).mp (by decide)

end SuperqueryNode.Finality
