import Mathlib.Order.Lattice
import Std.Data.ExtTreeMap
import SuperqueryNode.Lib.Ascending
import SuperqueryNode.Lib.KeyedMap
import SuperqueryNode.Lib.Unsigned

namespace SuperqueryNode.Core
open Unsigned Ascending

structure GetRange (T : Type) where
  value : T
  startHeight : Nat
  endHeight : Option Nat
deriving DecidableEq, Repr

def GetRange.contains {T : Type} (r : GetRange T) (h : Nat) : Prop :=
  r.startHeight ≤ h ∧ ∀ last ∈ r.endHeight, h ≤ last

structure EntryNotFoundError where
  height : Nat
deriving DecidableEq, Repr

structure BlockHeightMap (T : Type) where
  map : Std.ExtTreeMap Nat T compare

namespace BlockHeightMap
variable {T : Type}

-- `next - 1`; the outer `none` of this and of what uses it is the panic on underflow.
def endBefore : Option Nat → Option (Option Nat)
  | none => some none
  | some next => (checkedSub next 1).map some

def getDetails (m : BlockHeightMap T) (height : Nat) :
    Option (Option (T × Nat × Option Nat)) :=
  match floor m.map.toList height with
  | none => some none
  | some (start, value) =>
    (endBefore ((above m.map.toList start).map (·.1))).map fun last => some (value, start, last)

def get (m : BlockHeightMap T) (height : Nat) : Option (Except EntryNotFoundError T) :=
  (m.getDetails height).map fun details =>
    match details with
    | some (value, _, _) => .ok value
    | none => .error ⟨height⟩

def rangeAt (keys : List Nat) (entry : (Nat × T) × Nat) : Option (GetRange T) :=
  (endBefore keys[entry.2 + 1]?).map fun last => ⟨entry.1.2, entry.1.1, last⟩

def getAllWithRange (m : BlockHeightMap T) : Option (List (GetRange T)) :=
  m.map.toList.zipIdx.mapM (rangeAt (m.map.toList.map (·.1)))

def keepActive (m : BlockHeightMap T) (startHeight key : Nat) (previousKey : Option Nat)
    (result : Std.ExtTreeMap Nat T compare) : Std.ExtTreeMap Nat T compare :=
  match previousKey with
  | some prev =>
    if prev < startHeight ∧ startHeight ≤ key then
      match m.map[prev]? with
      | some value => result.insert prev value
      | none => result
    else result
  | none => result

def withinStep (m : BlockHeightMap T) (startHeight endHeight : Nat)
    (acc : Std.ExtTreeMap Nat T compare × Option Nat) (e : Nat × T) :
    Std.ExtTreeMap Nat T compare × Option Nat :=
  let result := m.keepActive startHeight e.1 acc.2 acc.1
  (if startHeight ≤ e.1 ∧ e.1 ≤ endHeight then result.insert e.1 e.2 else result, some e.1)

def getWithinRange (m : BlockHeightMap T) (startHeight endHeight : Nat) :
    Std.ExtTreeMap Nat T compare :=
  (m.map.toList.foldl (m.withinStep startHeight endHeight) (∅, none)).1

section Spans

def endOf (post : List (Nat × T)) : Option Nat := post.head?.map (·.1 - 1)

def spanOf (e : Nat × T) (post : List (Nat × T)) : GetRange T := ⟨e.2, e.1, endOf post⟩

def spans : List (Nat × T) → List (GetRange T)
  | [] => []
  | e :: post => spanOf e post :: spans post

variable {l pre post : List (Nat × T)} {e : Nat × T} {h : Nat}

theorem mem_spans {r : GetRange T} :
    r ∈ spans l ↔ ∃ pre e post, l = pre ++ e :: post ∧ r = spanOf e post := by
  induction l with
  | nil => simp [spans]
  | cons x l ih =>
    rw [spans, List.mem_cons, ih]
    constructor
    · rintro (rfl | ⟨pre, e, post, rfl, rfl⟩)
      · exact ⟨[], x, l, rfl, rfl⟩
      · exact ⟨x :: pre, e, post, rfl, rfl⟩
    · rintro ⟨pre, e, post, hsplit, rfl⟩
      cases pre with
      | nil =>
        cases hsplit
        exact .inl rfl
      | cons y pre =>
        cases hsplit
        exact .inr ⟨pre, e, post, rfl, rfl⟩

-- An end is the height before a key above another one, so it never underflows.
theorem endBefore_post (hl : Ordered (pre ++ e :: post)) :
    endBefore (post.head?.map (·.1)) = some (endOf post) := by
  cases post with
  | nil => rfl
  | cons next post =>
    have hlt := ordered_after hl (List.mem_cons_self (a := next) (l := post))
    simp only [List.head?_cons, Option.map_some, endBefore, endOf,
      checkedSub_of_le (show 1 ≤ next.1 by omega)]

theorem contains_span (hl : Ordered (pre ++ e :: post)) :
    (spanOf e post).contains h ↔ InEffect (pre ++ e :: post) h pre e post := by
  constructor
  · rintro ⟨hstart, hend⟩
    refine ⟨rfl, hstart, fun p hp => ?_⟩
    cases post with
    | nil => cases hp
    | cons next post =>
      have hafter := ordered_after hl (List.mem_cons_self (a := next) (l := post))
      have hnext : next.1 ≤ p.1 := by
        rcases List.mem_cons.mp hp with rfl | hp
        · exact le_rfl
        · have htail := (List.pairwise_append.mp hl).2.1.of_cons
          exact ((List.pairwise_cons.mp htail).1 p hp).le
      have := hend (next.1 - 1) rfl
      omega
  · rintro ⟨-, hreached, hpending⟩
    refine ⟨hreached, fun last hlast => ?_⟩
    obtain ⟨next, hnext, rfl⟩ := Option.map_eq_some_iff.mp hlast
    have := hpending next (List.mem_of_mem_head? hnext)
    omega

theorem spans_ascending (hl : Ordered l) :
    (spans l).Pairwise fun a b => ∃ last, a.endHeight = some last ∧ last < b.startHeight := by
  induction l with
  | nil => exact .nil
  | cons x l ih =>
    obtain ⟨hx, hrest⟩ := List.pairwise_cons.mp hl
    refine .cons (fun r hr => ?_) (ih hrest)
    obtain ⟨pre, e, post, rfl, rfl⟩ := mem_spans.mp hr
    cases pre with
    | nil =>
      have hxe := hx e List.mem_cons_self
      refine ⟨e.1 - 1, rfl, ?_⟩
      simp only [spanOf]
      omega
    | cons y pre =>
      have hxy := hx y List.mem_cons_self
      have hye := (List.pairwise_cons.mp hrest).1 e (by simp)
      refine ⟨y.1 - 1, rfl, ?_⟩
      simp only [spanOf]
      omega

theorem mapM_spans (hl : Ordered l) :
    ∀ pre rest, l = pre ++ rest →
      (rest.zipIdx pre.length).mapM (rangeAt (l.map (·.1))) = some (spans rest) := by
  rintro pre rest rfl
  induction rest generalizing pre with
  | nil => rfl
  | cons e post ih =>
    have hnext : ((pre ++ e :: post).map (·.1))[pre.length + 1]? = post.head?.map (·.1) := by
      rw [List.getElem?_map, List.getElem?_append_right (by omega), List.head?_eq_getElem?,
        show pre.length + 1 - pre.length = 0 + 1 by omega, List.getElem?_cons_succ]
    have hrest := ih (pre ++ [e]) (by simpa using hl)
    rw [List.append_assoc, List.length_append, List.length_singleton] at hrest
    have hfirst : rangeAt ((pre ++ e :: post).map (·.1)) (e, pre.length) = some (spanOf e post) := by
      rw [rangeAt, hnext, endBefore_post hl]
      rfl
    simp only [List.singleton_append] at hrest
    rw [List.zipIdx_cons, List.mapM_cons, hfirst, hrest]
    rfl

end Spans

section Entries
variable (m : BlockHeightMap T)

theorem toList_ordered : Ordered m.map.toList := by
  have hkeys := Std.ExtTreeMap.ordered_keys_toList (t := m.map)
  exact hkeys.imp fun h => Nat.compare_eq_lt.mp h

theorem getAllWithRange_eq : m.getAllWithRange = some (spans m.map.toList) :=
  mapM_spans m.toList_ordered [] _ rfl

variable {m} {k h : Nat} {v : T} {pre post : List (Nat × T)} {e : Nat × T}

theorem mem_toList : (k, v) ∈ m.map.toList ↔ m.map[k]? = some v :=
  Std.ExtTreeMap.mem_toList_iff_getElem?_eq_some

theorem getDetails_inEffect (heffect : InEffect m.map.toList h pre e post) :
    m.getDetails h = some (some (e.2, e.1, endOf post)) := by
  have hl := m.toList_ordered
  rw [getDetails, floor_inEffect hl heffect]
  simp only [above_inEffect hl heffect]
  rw [heffect.split] at hl
  rw [endBefore_post hl, Option.map_some]

theorem getDetails_none (hnone : ∀ p ∈ m.map.toList, h < p.1) : m.getDetails h = some none := by
  rw [getDetails, floor_eq_none.mpr hnone]

theorem get_eq (m : BlockHeightMap T) (h : Nat) : m.get h =
    some (match floor m.map.toList h with
      | some e => .ok e.2
      | none => .error ⟨h⟩) := by
  by_cases hreached : ∃ p ∈ m.map.toList, p.1 ≤ h
  · obtain ⟨pre, e, post, heffect⟩ := exists_inEffect m.toList_ordered hreached
    rw [get, getDetails_inEffect heffect, floor_inEffect m.toList_ordered heffect]
    rfl
  · have hnone : ∀ p ∈ m.map.toList, h < p.1 := fun p hp => not_le.mp fun hle =>
      hreached ⟨p, hp, hle⟩
    rw [get, getDetails_none hnone, floor_eq_none.mpr hnone]
    rfl

end Entries

section Within

def Restricts (m w : Std.ExtTreeMap Nat T compare) (S : Nat → Prop) : Prop :=
  ∀ k v, w[k]? = some v ↔ m[k]? = some v ∧ S k

variable {m w : Std.ExtTreeMap Nat T compare} {S : Nat → Prop} {k lo hi : Nat} {v : T}

theorem restricts_insert (hw : Restricts m w S) (hk : m[k]? = some v) :
    Restricts m (w.insert k v) fun k' => S k' ∨ k' = k := by
  intro k' v'
  rw [KeyedMap.getElem?_insert]
  split_ifs with heq
  · cases heq
    rw [hk]
    exact ⟨fun h => ⟨h, .inr rfl⟩, fun h => h.1⟩
  · rw [hw k' v']
    have hne : k' ≠ k := fun h => heq h.symm
    simp only [hne, or_false]

theorem restricts_congr {S' : Nat → Prop} (hw : Restricts m w S)
    (h : ∀ k ∈ m, S k ↔ S' k) : Restricts m w S' := by
  intro k v
  rw [hw k v]
  exact and_congr_right fun hk => h k ((KeyedMap.mem_iff m k).mpr ⟨v, hk⟩)

def adds (lo hi : Nat) (prev : Option Nat) (k : Nat) (k' : Nat) : Prop :=
  (prev = some k' ∧ k' < lo ∧ lo ≤ k) ∨ (k' = k ∧ lo ≤ k ∧ k ≤ hi)

theorem keepActive_restricts {m : BlockHeightMap T} {key : Nat} {prev : Option Nat}
    (hw : Restricts m.map w S) (hprev : ∀ p ∈ prev, p ∈ m.map) :
    Restricts m.map (m.keepActive lo key prev w)
      fun k => S k ∨ (prev = some k ∧ k < lo ∧ lo ≤ key) := by
  cases prev with
  | none => exact restricts_congr hw fun k _ => by simp
  | some p =>
    obtain ⟨value, hvalue⟩ := (KeyedMap.mem_iff m.map p).mp (hprev p rfl)
    simp only [keepActive, hvalue, Option.some.injEq]
    split_ifs with hbelow
    · refine restricts_congr (restricts_insert hw hvalue) fun k _ => ?_
      constructor
      · rintro (hS | rfl)
        · exact .inl hS
        · exact .inr ⟨rfl, hbelow⟩
      · rintro (hS | ⟨rfl, -⟩)
        · exact .inl hS
        · exact .inr rfl
    · refine restricts_congr hw fun k _ => ?_
      constructor
      · exact .inl
      · rintro (hS | ⟨rfl, hlt⟩)
        · exact hS
        · exact absurd hlt hbelow

theorem withinStep_restricts {m : BlockHeightMap T} {acc : Std.ExtTreeMap Nat T compare × Option Nat}
    {e : Nat × T} (hacc : Restricts m.map acc.1 S) (hprev : ∀ p ∈ acc.2, p ∈ m.map)
    (he : m.map[e.1]? = some e.2) :
    Restricts m.map (m.withinStep lo hi acc e).1 fun k => S k ∨ adds lo hi acc.2 e.1 k := by
  have hkept : Restricts m.map (m.keepActive lo e.1 acc.2 acc.1) _ :=
    keepActive_restricts hacc hprev
  rw [withinStep]
  split_ifs with hinside
  · refine restricts_congr (restricts_insert hkept he) fun k _ => ?_
    rw [adds, or_assoc]
    simp only [hinside, and_true]
  · refine restricts_congr hkept fun k _ => ?_
    rw [adds]
    simp only [hinside, and_false, or_false]

def addsAll (lo hi : Nat) : Option Nat → List (Nat × T) → Nat → Prop
  | _, [], _ => False
  | prev, e :: l, k => adds lo hi prev e.1 k ∨ addsAll lo hi (some e.1) l k

theorem foldl_restricts {m : BlockHeightMap T} {l : List (Nat × T)}
    {acc : Std.ExtTreeMap Nat T compare × Option Nat} (hacc : Restricts m.map acc.1 S)
    (hprev : ∀ p ∈ acc.2, p ∈ m.map) (hl : ∀ e ∈ l, m.map[e.1]? = some e.2) :
    Restricts m.map (l.foldl (m.withinStep lo hi) acc).1
      fun k => S k ∨ addsAll lo hi acc.2 l k := by
  induction l generalizing acc S with
  | nil => exact restricts_congr hacc fun k _ => by simp [addsAll]
  | cons e l ih =>
    have he := hl e List.mem_cons_self
    have hstep : Restricts m.map (m.withinStep lo hi acc e).1 _ :=
      withinStep_restricts hacc hprev he
    have hnext : ∀ p ∈ (m.withinStep lo hi acc e).2, p ∈ m.map := by
      intro p hp
      cases hp
      exact (KeyedMap.mem_iff m.map e.1).mpr ⟨e.2, he⟩
    have hrest := ih hstep hnext fun e' he' => hl e' (List.mem_cons_of_mem _ he')
    refine restricts_congr hrest fun k _ => ?_
    rw [or_assoc]
    exact Iff.rfl

def Greatest (keys : List Nat) (lo k : Nat) : Prop :=
  k ∈ keys ∧ k < lo ∧ ∀ k' ∈ keys, k' < lo → k' ≤ k

theorem greatest_above {p : Nat} {keys : List Nat} (h : ∀ k' ∈ keys, lo ≤ k') :
    Greatest (p :: keys) lo k ↔ k = p ∧ k < lo := by
  constructor
  · rintro ⟨hmem, hk, -⟩
    rcases List.mem_cons.mp hmem with rfl | hmem
    · exact ⟨rfl, hk⟩
    · exact absurd hk (Nat.not_lt.mpr (h k hmem))
  · rintro ⟨rfl, hk⟩
    refine ⟨List.mem_cons_self, hk, fun k' hk' hlt => ?_⟩
    rcases List.mem_cons.mp hk' with rfl | hk'
    · exact le_rfl
    · exact absurd hlt (Nat.not_lt.mpr (h k' hk'))

theorem greatest_passed {p q : Nat} {keys : List Nat} (hpq : p < q) (hq : q < lo) :
    Greatest (p :: q :: keys) lo k ↔ Greatest (q :: keys) lo k := by
  constructor
  · rintro ⟨hmem, hk, hmax⟩
    have hqk := hmax q (by simp) hq
    refine ⟨?_, hk, fun k' hk' => hmax k' (List.mem_cons_of_mem _ hk')⟩
    rcases List.mem_cons.mp hmem with rfl | hmem
    · omega
    · exact hmem
  · rintro ⟨hmem, hk, hmax⟩
    refine ⟨List.mem_cons_of_mem _ hmem, hk, fun k' hk' hlt => ?_⟩
    rcases List.mem_cons.mp hk' with rfl | hk'
    · have hqk := hmax q List.mem_cons_self hq
      omega
    · exact hmax k' hk' hlt

theorem addsAll_passed {p : Nat} {l : List (Nat × T)} (hl : Ordered l) (hp : ∀ e ∈ l, p < e.1) :
    addsAll lo hi (some p) l k ↔ (k ∈ l.map (·.1) ∧ lo ≤ k ∧ k ≤ hi) ∨
      (Greatest (p :: l.map (·.1)) lo k ∧ ∃ e ∈ l, lo ≤ e.1) := by
  induction l generalizing p with
  | nil => simp [addsAll]
  | cons e l ih =>
    obtain ⟨he, hrest⟩ := List.pairwise_cons.mp hl
    have hpe := hp e List.mem_cons_self
    rw [addsAll, ih hrest he, adds]
    by_cases hlo : lo ≤ e.1
    · have hkeys : ∀ k' ∈ e.1 :: l.map (·.1), lo ≤ k' := by
        intro k' hk'
        rcases List.mem_cons.mp hk' with rfl | hk'
        · exact hlo
        · obtain ⟨e', he', rfl⟩ := List.mem_map.mp hk'
          have := he e' he'
          omega
      have hrestnot : ¬Greatest (e.1 :: l.map (·.1)) lo k := fun h =>
        Nat.not_lt.mpr (hkeys k h.1) h.2.1
      have hexists : ∃ e' ∈ e :: l, lo ≤ e'.1 := ⟨e, List.mem_cons_self, hlo⟩
      have hgreatest := greatest_above (p := p) hkeys (k := k)
      rw [List.map_cons]
      simp only [hrestnot, hlo, List.mem_cons, Option.some.injEq, and_true, true_and, false_and,
        or_false]
      grind
    · have hgreatest : Greatest (p :: e.1 :: l.map (·.1)) lo k ↔
          Greatest (e.1 :: l.map (·.1)) lo k := greatest_passed hpe (Nat.not_le.mp hlo)
      have hexists : (∃ e' ∈ e :: l, lo ≤ e'.1) ↔ ∃ e' ∈ l, lo ≤ e'.1 := by
        simp [hlo]
      rw [List.map_cons]
      simp only [hlo, List.mem_cons]
      grind

theorem addsAll_start {l : List (Nat × T)} (hl : Ordered l) (hlater : ∃ e ∈ l, lo ≤ e.1)
    (hk : k ∈ l.map (·.1)) : addsAll lo hi none l k ↔
      (lo ≤ k ∧ k ≤ hi) ∨ Greatest (l.map (·.1)) lo k := by
  cases l with
  | nil => simp at hk
  | cons e l =>
    obtain ⟨he, hrest⟩ := List.pairwise_cons.mp hl
    have hgreatest : Greatest ((e :: l).map (·.1)) lo k → ∃ e' ∈ l, lo ≤ e'.1 := by
      rintro ⟨hmem, hk, -⟩
      obtain ⟨e', he', hlo⟩ := hlater
      rcases List.mem_cons.mp he' with rfl | he'
      · obtain ⟨e'', he'', hkey⟩ := List.mem_map.mp hmem
        rcases List.mem_cons.mp he'' with rfl | he''
        · omega
        · have := he e'' he''
          omega
      · exact ⟨e', he', hlo⟩
    rw [addsAll, addsAll_passed hrest he, adds]
    rw [List.map_cons] at hk hgreatest ⊢
    grind

theorem getWithinRange_restricts {m : BlockHeightMap T} (hlater : ∃ k ∈ m.map, lo ≤ k) :
    Restricts m.map (m.getWithinRange lo hi) fun k => (lo ≤ k ∧ k ≤ hi) ∨
      (k < lo ∧ ∀ k' ∈ m.map, k' < lo → k' ≤ k) := by
  have hkeys : ∀ k, k ∈ m.map.toList.map (·.1) ↔ k ∈ m.map := by
    intro k
    rw [KeyedMap.mem_iff, List.mem_map]
    constructor
    · rintro ⟨e, he, rfl⟩
      exact ⟨e.2, mem_toList.mp he⟩
    · rintro ⟨v, hv⟩
      exact ⟨(k, v), mem_toList.mpr hv, rfl⟩
  have hempty : Restricts m.map ∅ fun _ => False := fun k v => by simp
  have hrun : Restricts m.map (m.getWithinRange lo hi) _ :=
    foldl_restricts hempty (fun _ h => by cases h) fun e he => mem_toList.mp he
  refine restricts_congr hrun fun k hk => ?_
  have hlast : ∃ e ∈ m.map.toList, lo ≤ e.1 := by
    obtain ⟨k', hk', hlo⟩ := hlater
    obtain ⟨e, he, rfl⟩ := List.mem_map.mp ((hkeys k').mpr hk')
    exact ⟨e, he, hlo⟩
  rw [addsAll_start m.toList_ordered hlast ((hkeys k).mpr hk), Greatest]
  simp only [hkeys, hk, true_and, false_or]

end Within

structure ViewsAgree (m : BlockHeightMap T) (ranges : List (GetRange T)) : Prop where
  all : m.getAllWithRange = some ranges
  ascending : ranges.Pairwise fun a b => ∃ last, a.endHeight = some last ∧ last < b.startHeight
  inhabited : ∀ r ∈ ranges, r.contains r.startHeight
  cover : ∀ h, (∃ r ∈ ranges, r.contains h) ↔ ∃ first, m.map.minKey? = some first ∧ first ≤ h
  details : ∀ r ∈ ranges, ∀ h, r.contains h →
    m.getDetails h = some (some (r.value, r.startHeight, r.endHeight))
  outside : ∀ h, (∀ r ∈ ranges, ¬r.contains h) → m.getDetails h = some none
  get : ∀ r ∈ ranges, ∀ h, r.contains h → m.get h = some (.ok r.value)
  missing : ∀ h, (∀ r ∈ ranges, ¬r.contains h) → m.get h = some (.error ⟨h⟩)

structure WithinAgrees (m : BlockHeightMap T) (startHeight endHeight : Nat) : Prop where
  entries : ∀ k v, (m.getWithinRange startHeight endHeight)[k]? = some v ↔ m.map[k]? = some v ∧
    (startHeight ≤ k ∧ k ≤ endHeight ∨
      k < startHeight ∧ ∀ k' ∈ m.map, k' < startHeight → k' ≤ k)
  get : ∀ h, startHeight ≤ h → h ≤ endHeight →
    get ⟨m.getWithinRange startHeight endHeight⟩ h = m.get h

section Views
variable {m : BlockHeightMap T}

theorem inEffect_of_contains {r : GetRange T} {h : Nat} (hr : r ∈ spans m.map.toList)
    (hin : r.contains h) : ∃ pre e post, InEffect m.map.toList h pre e post ∧ r = spanOf e post := by
  have hl := m.toList_ordered
  obtain ⟨pre, e, post, hsplit, rfl⟩ := mem_spans.mp hr
  rw [hsplit] at hl
  exact ⟨pre, e, post, hsplit ▸ (contains_span hl).mp hin, rfl⟩

theorem contains_of_inEffect {pre post : List (Nat × T)} {e : Nat × T} {h : Nat}
    (heffect : InEffect m.map.toList h pre e post) :
    spanOf e post ∈ spans m.map.toList ∧ (spanOf e post).contains h := by
  have hl := m.toList_ordered
  refine ⟨mem_spans.mpr ⟨pre, e, post, heffect.split, rfl⟩, ?_⟩
  rw [heffect.split] at hl heffect
  exact (contains_span hl).mpr heffect

theorem above_of_outside {h : Nat} (hnot : ∀ r ∈ spans m.map.toList, ¬r.contains h) :
    ∀ p ∈ m.map.toList, h < p.1 := by
  intro p hp
  by_contra hle
  obtain ⟨pre, e, post, heffect⟩ := exists_inEffect m.toList_ordered ⟨p, hp, not_lt.mp hle⟩
  obtain ⟨hmem, hin⟩ := contains_of_inEffect heffect
  exact hnot _ hmem hin

variable (m)

theorem reached_iff {h : Nat} : (∃ e ∈ m.map.toList, e.1 ≤ h) ↔
    ∃ first, m.map.minKey? = some first ∧ first ≤ h := by
  constructor
  · rintro ⟨e, he, hle⟩
    have hmem := (KeyedMap.mem_iff m.map e.1).mpr ⟨e.2, mem_toList.mp he⟩
    cases hfirst : m.map.minKey? with
    | none =>
      rw [Std.ExtTreeMap.minKey?_eq_none_iff.mp hfirst] at hmem
      exact absurd hmem Std.ExtTreeMap.not_mem_empty
    | some first =>
      have hmin := (Std.ExtTreeMap.minKey?_eq_some_iff_mem_and_forall.mp hfirst).2 e.1 hmem
      exact ⟨first, rfl, (Nat.isLE_compare.mp hmin).trans hle⟩
  · rintro ⟨first, hfirst, hle⟩
    have hmem := (Std.ExtTreeMap.minKey?_eq_some_iff_mem_and_forall.mp hfirst).1
    obtain ⟨v, hv⟩ := (KeyedMap.mem_iff m.map first).mp hmem
    exact ⟨(first, v), mem_toList.mpr hv, hle⟩

theorem views : ViewsAgree m (spans m.map.toList) := by
  have hl := m.toList_ordered
  constructor
  case all => exact getAllWithRange_eq m
  case ascending => exact spans_ascending hl
  case inhabited =>
    intro r hr
    obtain ⟨pre, e, post, hsplit, rfl⟩ := mem_spans.mp hr
    rw [hsplit] at hl
    exact (contains_span hl).mpr ⟨rfl, le_rfl, fun p hp => ordered_after hl hp⟩
  case cover =>
    intro h
    constructor
    · rintro ⟨r, hr, hin⟩
      obtain ⟨pre, e, post, heffect, -⟩ := inEffect_of_contains hr hin
      have he : e ∈ m.map.toList := by simp [heffect.split]
      exact (reached_iff m).mp ⟨e, he, heffect.reached⟩
    · intro hfirst
      obtain ⟨pre, e, post, heffect⟩ := exists_inEffect hl ((reached_iff m).mpr hfirst)
      exact ⟨_, contains_of_inEffect heffect⟩
  case details =>
    intro r hr h hin
    obtain ⟨pre, e, post, heffect, rfl⟩ := inEffect_of_contains hr hin
    exact getDetails_inEffect heffect
  case outside => exact fun h hnot => getDetails_none (above_of_outside hnot)
  case get =>
    intro r hr h hin
    obtain ⟨pre, e, post, heffect, rfl⟩ := inEffect_of_contains hr hin
    rw [get_eq, floor_inEffect hl heffect]
    rfl
  case missing =>
    intro h hnot
    rw [get_eq, floor_eq_none.mpr (above_of_outside hnot)]

theorem within_get {startHeight endHeight h : Nat} (hlater : ∃ k ∈ m.map, startHeight ≤ k)
    (hstart : startHeight ≤ h) (hend : h ≤ endHeight) :
    get ⟨m.getWithinRange startHeight endHeight⟩ h = m.get h := by
  let w : BlockHeightMap T := ⟨m.getWithinRange startHeight endHeight⟩
  have hw : Restricts m.map w.map _ := getWithinRange_restricts hlater
  have hsub : ∀ e ∈ w.map.toList, e ∈ m.map.toList := fun e he =>
    mem_toList.mpr ((hw e.1 e.2).mp (mem_toList.mp he)).1
  rw [get_eq, get_eq]
  cases hfloor : floor m.map.toList h with
  | none =>
    have hnone := floor_eq_none.mp hfloor
    rw [floor_eq_none.mpr fun p hp => hnone p (hsub p hp)]
  | some e =>
    obtain ⟨he, hle, hmax⟩ := (floor_eq_some m.toList_ordered).mp hfloor
    have hin : e ∈ w.map.toList := by
      refine mem_toList.mpr ((hw e.1 e.2).mpr ⟨mem_toList.mp he, ?_⟩)
      rcases Nat.lt_or_ge e.1 startHeight with hbelow | hinside
      · refine .inr ⟨hbelow, fun k hk hlt => ?_⟩
        obtain ⟨v, hv⟩ := (KeyedMap.mem_iff m.map k).mp hk
        exact hmax (k, v) (mem_toList.mpr hv) (by
          simp only
          omega)
      · exact .inl ⟨hinside, by omega⟩
    have hfloorw : floor w.map.toList h = some e :=
      (floor_eq_some w.toList_ordered).mpr ⟨hin, hle, fun p hp => hmax p (hsub p hp)⟩
    rw [hfloorw]

theorem views_agree : (∃ ranges, ViewsAgree m ranges) ∧
    ∀ startHeight endHeight, startHeight ≤ endHeight → (∃ k ∈ m.map, startHeight ≤ k) →
      WithinAgrees m startHeight endHeight := by
  refine ⟨⟨_, views m⟩, ?_⟩
  intro startHeight endHeight _ hlater
  exact ⟨getWithinRange_restricts hlater, fun h => within_get m hlater⟩

end Views

def activations : BlockHeightMap String :=
  ⟨Std.ExtTreeMap.ofList [(1, "a"), (10, "b"), (20, "c")] compare⟩

theorem activations_agree : (∃ ranges, ViewsAgree activations ranges) ∧
    WithinAgrees activations 12 18 := by
  obtain ⟨hviews, hwithin⟩ := views_agree activations
  exact ⟨hviews, hwithin 12 18 (by decide) ⟨20, by decide⟩⟩

example : activations.getAllWithRange =
    some [⟨"a", 1, some 9⟩, ⟨"b", 10, some 19⟩, ⟨"c", 20, none⟩] := by decide

example : (activations.getWithinRange 12 18).keys = [10] := by decide

end BlockHeightMap
end SuperqueryNode.Core
