import SuperqueryNode.Store.Naming

namespace SuperqueryNode.Store
open Ascii Regex

section Separators
variable {u : Unicode} {s : String}

def writtenAs (c : Char) : Char := (if c = '-' then '_' else c).toLower

theorem writtenAs_ascii {c : Char} (h : c.toNat < 128) : (writtenAs c).toNat < 128 := by
  rw [writtenAs]
  split_ifs
  · decide
  · exact toLower_ascii h

theorem writtenAs_ne_hyphen (c : Char) : writtenAs c ≠ '-' := by
  rw [writtenAs, Ne, toLower_eq_iff rfl]
  split_ifs with h
  · decide
  · exact h

theorem writtenAs_eq_underscore (c : Char) : writtenAs c = '_' ↔ c = '_' ∨ c = '-' := by
  rw [writtenAs, toLower_eq_iff rfl]
  split_ifs with h
  · simp [h]
  · simp [h]

theorem insert_ascii (hs : ∀ c ∈ s.toList, c.toNat < 128) :
    ∀ c ∈ insertBefore '_' (opens u) '_' s.toList, c.toNat < 128 := by
  intro c hc
  rcases mem_insertBefore hc with rfl | hc
  · decide
  · exact hs c hc

theorem underscored_ascii (hs : ∀ c ∈ s.toList, c.toNat < 128) :
    (underscored u s).toList = (insertBefore '_' (opens u) '_' s.toList).map writtenAs := by
  rw [underscored_inserts, String.toList_ofList, u.toLowercase_ascii, List.map_map]
  · rfl
  · intro d hd
    obtain ⟨c, hc, rfl⟩ := List.mem_map.mp hd
    split_ifs
    · decide
    · exact insert_ascii hs c hc

theorem not_upper_writtenAs (c : Char) : (writtenAs c).isUpper = false := not_upper_toLower

theorem writtenAs_eq_self {c : Char} (hupper : c.isUpper = false) (hhyphen : c ≠ '-') :
    writtenAs c = c := by
  rw [writtenAs, if_neg hhyphen, toLower_of_not_upper hupper]

theorem not_opens_of_lower {prev c : Char} {next : Option Char} (h : c.isUpper = false) :
    opens u prev c next = false := by
  simp [opens, opensAcronym, opensWord, h]

theorem mem_underscored (hs : ∀ c ∈ s.toList, c.toNat < 128) :
    ∀ c ∈ (underscored u s).toList, c.toNat < 128 ∧ c.isUpper = false ∧ c ≠ '-' := by
  intro c hc
  rw [underscored_ascii hs] at hc
  obtain ⟨d, hd, rfl⟩ := List.mem_map.mp hc
  exact ⟨writtenAs_ascii (insert_ascii hs d hd), not_upper_writtenAs d, writtenAs_ne_hyphen d⟩

theorem filter_underscored (hs : ∀ c ∈ s.toList, c.toNat < 128) :
    (underscored u s).toList.filter (· ≠ '_') =
      (s.toList.filter fun c => c ≠ '_' && c ≠ '-').map Char.toLower := by
  have hkept : ((fun c => decide (c ≠ '_')) ∘ writtenAs) = fun c => c ≠ '_' && c ≠ '-' := by
    funext c
    rw [← Bool.decide_and, Function.comp_apply, decide_eq_decide, Ne, writtenAs_eq_underscore,
      not_or]
  rw [underscored_ascii hs, List.filter_map, hkept, filter_insertBefore rfl]
  apply List.map_congr_left
  intro c hc
  obtain ⟨_, hhyphen⟩ := Bool.and_eq_true_iff.mp (List.mem_filter.mp hc).2
  rw [writtenAs, if_neg (of_decide_eq_true hhyphen)]

theorem underscored_twice (hs : ∀ c ∈ s.toList, c.toNat < 128) :
    underscored u (underscored u s) = underscored u s := by
  have hmem := mem_underscored (u := u) hs
  rw [← String.toList_inj, underscored_ascii fun c hc => (hmem c hc).1,
    insertBefore_eq_self fun c hc _ _ => not_opens_of_lower (hmem c hc).2.1]
  refine (List.map_congr_left ?_).trans (List.map_id _)
  intro c hc
  exact writtenAs_eq_self (hmem c hc).2.1 (hmem c hc).2.2

theorem underscored_only_separates (u : Unicode) (s : String) (hs : ∀ c ∈ s.toList, c.toNat < 128) :
    (underscored u s).toList.filter (· ≠ '_') =
      (s.toList.filter fun c => c ≠ '_' && c ≠ '-').map Char.toLower ∧
    (∀ c ∈ (underscored u s).toList, u.isUppercase c = false ∧ c ≠ '-') ∧
    underscored u (underscored u s) = underscored u s := by
  refine ⟨filter_underscored hs, ?_, underscored_twice hs⟩
  intro c hc
  obtain ⟨hascii, hupper, hhyphen⟩ := mem_underscored hs c hc
  exact ⟨by rw [u.isUppercase_ascii c hascii, hupper], hhyphen⟩

theorem underscored_separates_acronym :
    underscored .ascii "eth-HTTPServer2Id" = "eth_http_server2_id" ∧
      underscored .ascii (underscored .ascii "eth-HTTPServer2Id") =
        underscored .ascii "eth-HTTPServer2Id" := by
  have hascii : "eth-HTTPServer2Id".toList.all (fun c => decide (c.toNat < 128)) = true := rfl
  refine ⟨by decide, (underscored_only_separates .ascii _ ?_).2.2⟩
  exact fun c hc => of_decide_eq_true (List.all_eq_true.mp hascii c hc)

end Separators
end SuperqueryNode.Store
