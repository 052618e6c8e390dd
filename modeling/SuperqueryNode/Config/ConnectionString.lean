import SuperqueryNode.Lib.Ascii
import SuperqueryNode.Lib.Conninfo
import SuperqueryNode.Config.Db

namespace SuperqueryNode.Config
open Radix Conninfo

def replaceChar (c : Char) (text : String) (s : String) : String :=
  String.ofList (s.toList.flatMap fun d => if d = c then text.toList else [d])

def quote (value : String) : String :=
  "'" ++ replaceChar '\'' "\\'" (replaceChar '\\' "\\\\" value) ++ "'"

def DbConfig.connectionString (c : DbConfig) : String :=
  "host=" ++ quote c.host ++ " port=" ++ c.port.toNat.repr ++ " user=" ++ quote c.username ++
    " password=" ++ quote c.password ++ " dbname=" ++ quote c.database

-- The backslashes that the second pass writes are past doubling.
theorem replace_passes (c : Char) :
    (if c = '\\' then ['\\', '\\'] else [c]).flatMap (fun d => if d = '\'' then ['\\', '\''] else [d]) =
      escapeChar c := by
  rw [escapeChar]
  by_cases hescape : c = '\\'
  · subst hescape
    rfl
  · rw [if_neg hescape, List.flatMap_singleton]
    by_cases hquote : c = '\''
    · rw [if_pos hquote, if_pos (.inr hquote), hquote]
    · rw [if_neg hquote, if_neg (not_or.mpr ⟨hescape, hquote⟩)]

theorem quote_escapes (value : String) :
    (quote value).toList = '\'' :: escape value.toList ++ ['\''] := by
  have hpasses : ∀ c : Char, (if c = '\\' then "\\\\".toList else [c]).flatMap
      (fun d => if d = '\'' then "\\'".toList else [d]) = escapeChar c := replace_passes
  simp only [quote, replaceChar, String.toList_append, String.toList_ofList, List.flatMap_assoc,
    hpasses, escape]
  rfl

theorem repr_plain (n : Nat) : Plain n.repr.toList := by
  intro c hc
  rw [Nat.toList_repr] at hc
  have hdigit : 48 ≤ c.toNat ∧ c.toNat ≤ 57 :=
    Ascii.isDigit_iff.mp (Nat.isDigit_of_mem_toDigits (by omega) Nat.le.refl hc)
  have hother : ∀ d : Char, d.toNat < 48 ∨ 57 < d.toNat → c ≠ d := by
    rintro d hd rfl
    omega
  refine ⟨?_, hother _ (by decide), hother _ (by decide), hother _ (by decide)⟩
  rw [isSpace, decide_eq_false (hother _ (by decide)), decide_eq_false (by omega)]
  rfl

theorem connectionString_toList (c : DbConfig) : c.connectionString.toList =
    quotedEntry "host".toList c.host.toList ++
      ' ' :: (bareEntry "port".toList c.port.toNat.repr.toList ++
        (quotedEntry "user".toList c.username.toList ++
          ' ' :: (quotedEntry "password".toList c.password.toList ++
            ' ' :: quotedEntry "dbname".toList c.database.toList))) := by
  have hhost : "host=".toList = "host".toList ++ ['='] := rfl
  have hport : " port=".toList = ' ' :: ("port".toList ++ ['=']) := rfl
  have huser : " user=".toList = ' ' :: ("user".toList ++ ['=']) := rfl
  have hpassword : " password=".toList = ' ' :: ("password".toList ++ ['=']) := rfl
  have hdbname : " dbname=".toList = ' ' :: ("dbname".toList ++ ['=']) := rfl
  unfold DbConfig.connectionString
  simp only [String.toList_append, quote_escapes, hhost, hport, huser, hpassword, hdbname,
    quotedEntry, bareEntry, List.append_assoc, List.cons_append, List.nil_append]

theorem entries_connectionString (c : DbConfig) : entries c.connectionString = some
    [("host", c.host), ("port", c.port.toNat.repr), ("user", c.username),
      ("password", c.password), ("dbname", c.database)] := by
  have hport : c.port.toNat.repr.toList ≠ [] := by
    rw [Nat.toList_repr]
    exact Nat.toDigits_ne_nil
  rw [entries, parse, connectionString_toList, List.foldl_append,
    read_quoted (by decide) (by decide), read_blank, List.foldl_append,
    read_unquoted (by decide) (by decide) hport (repr_plain _), List.foldl_append,
    read_quoted (by decide) (by decide), read_blank, List.foldl_append,
    read_quoted (by decide) (by decide), read_blank, read_quoted (by decide) (by decide)]
  simp only [finish, Option.map_some, List.nil_append, List.cons_append, List.map_cons,
    List.map_nil, String.ofList_toList]

theorem fromStrRadix_port (port : UInt16) : fromStrRadix 16 10 port.toNat.repr = some port.toNat :=
  fromStrRadix_repr (Nat.le_of_lt_succ port.toNat_lt)

theorem connectionString_injection_proof (c : DbConfig) :
    entries c.connectionString = some
      [("host", c.host), ("port", c.port.toNat.repr), ("user", c.username),
        ("password", c.password), ("dbname", c.database)] ∧
    fromStrRadix 16 10 c.port.toNat.repr = some c.port.toNat :=
  ⟨entries_connectionString c, fromStrRadix_port c.port⟩

end SuperqueryNode.Config
