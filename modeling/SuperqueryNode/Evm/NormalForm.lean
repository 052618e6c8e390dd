import SuperqueryNode.Evm.Project

namespace SuperqueryNode.Evm
open ChainApi Fallible HexText Radix EvmAdapter

structure LogValue where
  address : BitVec 160
  topics : List (BitVec 256)
deriving DecidableEq, Repr

structure TransactionValue where
  toAddress : Option (BitVec 160)
  fromAddress : BitVec 160
  input : List UInt8
deriving DecidableEq, Repr

structure BlockValue where
  number : Nat
  logs : List LogValue
  transactions : List TransactionValue
deriving DecidableEq, Repr

structure LogWritten (p : Primitives) (l : EvmLog) (v : LogValue) : Prop where
  address : l.address = p.formatAddress v.address
  topics : l.topics = v.topics.map p.formatB256

structure TransactionWritten (p : Primitives) (t : EvmTransaction) (v : TransactionValue) : Prop where
  toAddress : t.toAddress = v.toAddress.map p.formatAddress
  fromAddress : t.fromAddress = p.formatAddress v.fromAddress
  input : t.input = p.formatBytes v.input

structure Normalised (p : Primitives) (b : EvmBlock) (v : BlockValue) : Prop where
  number : b.number = v.number
  logs : List.Forall₂ (LogWritten p) b.logs v.logs
  transactions : List.Forall₂ (TransactionWritten p) b.transactions v.transactions

-- What `{:#x}` writes for alloy's fixed-size and variable byte strings.
structure LowerHex (p : Primitives) (s : Signatures) : Prop where
  address : ∀ a, p.formatAddress a = formatHexWord 40 a.toNat
  b256 : ∀ h, p.formatB256 h = formatHexWord 64 h.toNat
  bytes : ∀ bs, p.formatBytes bs = "0x" ++ Config.lowerHex bs
  selector : ∀ f, s.formatSelector f = "0x" ++ Config.lowerHex f.toList

section Spelling

theorem toLower_digitChar {d : Nat} (h : d < 16) : d.digitChar.toLower = d.digitChar := by
  have hall : ∀ e < 16, (Nat.digitChar e).toLower = Nat.digitChar e := by decide
  exact hall d h

theorem value_prefixed {cs : List Char} (h : ∀ c ∈ cs, ∃ d < 16, c = Nat.digitChar d) :
    value ("0x" ++ String.ofList cs) = cs := by
  have hlist : ("0x" ++ String.ofList cs).toList = '0' :: 'x' :: cs := by
    rw [String.toList_append, String.toList_ofList, String.toList_ofList]
    rfl
  rw [value, hlist, strip]
  conv_rhs => rw [← List.map_id cs]
  refine List.map_congr_left fun c hc => ?_
  obtain ⟨d, hd, rfl⟩ := h c hc
  exact toLower_digitChar hd

def padded (width n : Nat) : List Char :=
  List.replicate (width - (Nat.toDigits 16 n).length) '0' ++ Nat.toDigits 16 n

theorem digitsValue_padded (width n : Nat) : digitsValue 16 0 (padded width n) = some n := by
  have hzeros : ∀ k cs, digitsValue 16 0 (List.replicate k '0' ++ cs) = digitsValue 16 0 cs := by
    intro k cs
    induction k with
    | zero => rfl
    | succ k ih =>
      rw [List.replicate_succ, List.cons_append, digitsValue]
      exact ih
  rw [padded, hzeros, digitsValue_toDigits (by decide) (by decide)]

theorem padded_digits {width n : Nat} {c : Char} (h : c ∈ padded width n) :
    ∃ d < 16, c = Nat.digitChar d := by
  rw [padded, List.mem_append] at h
  rcases h with h | h
  · exact ⟨0, by decide, (List.mem_replicate.mp h).2⟩
  · exact mem_toDigits (by decide) h

theorem value_formatHexWord (width n : Nat) : value (formatHexWord width n) = padded width n :=
  value_prefixed fun _ => padded_digits

theorem formatHexWord_inj {width n m : Nat}
    (h : value (formatHexWord width n) = value (formatHexWord width m)) : n = m := by
  rw [value_formatHexWord, value_formatHexWord] at h
  have hvalue := congrArg (digitsValue 16 0) h
  rw [digitsValue_padded, digitsValue_padded] at hvalue
  exact Option.some.inj hvalue

theorem hexPair_digits {b : UInt8} {c : Char} (h : c ∈ Config.hexPair b) :
    ∃ d < 16, c = Nat.digitChar d := by
  have hb : b.toNat < 256 := b.toNat_lt_size
  simp only [Config.hexPair, List.mem_cons, List.not_mem_nil, or_false] at h
  rcases h with rfl | rfl
  · exact ⟨b.toNat / 16, by omega, rfl⟩
  · exact ⟨b.toNat % 16, by omega, rfl⟩

theorem value_lowerHex (bs : List UInt8) :
    value ("0x" ++ Config.lowerHex bs) = bs.flatMap Config.hexPair := by
  refine value_prefixed fun c hc => ?_
  obtain ⟨b, -, hb⟩ := List.mem_flatMap.mp hc
  exact hexPair_digits hb

theorem hexPair_prefix {as bs : List UInt8} :
    as.flatMap Config.hexPair <+: bs.flatMap Config.hexPair ↔ as <+: bs := by
  induction as generalizing bs with
  | nil => simp
  | cons a as ih =>
    cases bs with
    | nil => simp [Config.hexPair]
    | cons b bs =>
      have hcons : ∀ x xs, (x :: xs).flatMap Config.hexPair =
          Nat.digitChar (x.toNat / 16) :: Nat.digitChar (x.toNat % 16) ::
            xs.flatMap Config.hexPair := fun _ _ => rfl
      rw [hcons, hcons, List.cons_prefix_cons, List.cons_prefix_cons, List.cons_prefix_cons, ih,
        ← and_assoc]
      refine and_congr_left fun _ => ?_
      constructor
      · rintro ⟨hhigh, hlow⟩
        apply Config.hexPair_injective
        rw [Config.hexPair, Config.hexPair, hhigh, hlow]
      · rintro rfl
        exact ⟨rfl, rfl⟩

variable {p : Primitives} {s : Signatures}

theorem LowerHex.address_inj (h : LowerHex p s) {a b : BitVec 160} :
    value (p.formatAddress a) = value (p.formatAddress b) ↔ a = b := by
  constructor
  · intro heq
    rw [h.address, h.address] at heq
    exact BitVec.eq_of_toNat_eq (formatHexWord_inj heq)
  · rintro rfl
    rfl

theorem LowerHex.b256_inj (h : LowerHex p s) {a b : BitVec 256} :
    value (p.formatB256 a) = value (p.formatB256 b) ↔ a = b := by
  constructor
  · intro heq
    rw [h.b256, h.b256] at heq
    exact BitVec.eq_of_toNat_eq (formatHexWord_inj heq)
  · rintro rfl
    rfl

theorem LowerHex.selector_starts (h : LowerHex p s) {f : Vector UInt8 4} {input : List UInt8} :
    (value (s.formatSelector f) ≠ [] ∧ value (s.formatSelector f) <+: value (p.formatBytes input)) ↔
      f.toList <+: input := by
  rw [h.selector, h.bytes, value_lowerHex, value_lowerHex, hexPair_prefix]
  refine and_iff_right fun hnil => ?_
  have hlength := congrArg List.length hnil
  simp [Config.hexPair] at hlength

end Spelling

section Decoded
open Decode
variable {p : Primitives} {header : Header} {expected : Nat}

theorem hash_written {value : Json} {h : String} (hok : Decode.hash p value = .ok h) :
    ∃ v, p.formatB256 v = h := by
  obtain ⟨v, -, hv⟩ := Option.map_eq_some_iff.mp (okOr_eq_ok.mp hok)
  exact ⟨v, hv⟩

theorem address_written {value : Json} {a : String} (hok : Decode.address p value = .ok a) :
    ∃ v, p.formatAddress v = a := by
  obtain ⟨v, -, hv⟩ := Option.map_eq_some_iff.mp (okOr_eq_ok.mp hok)
  exact ⟨v, hv⟩

theorem bytes_written {value : Json} {bs : String} (hok : Decode.bytes p value = .ok bs) :
    ∃ v, p.formatBytes v = bs := by
  obtain ⟨v, -, hv⟩ := Option.map_eq_some_iff.mp (okOr_eq_ok.mp hok)
  exact ⟨v, hv⟩

theorem toAddress_written {value : Json} {a : Option String}
    (hok : Decode.toAddress p value = .ok a) :
    ∃ v : Option (BitVec 160), a = v.map p.formatAddress := by
  rw [Decode.toAddress] at hok
  split_ifs at hok
  · cases hok
    exact ⟨none, rfl⟩
  · cases haddress : Decode.address p value with
    | error e =>
      rw [haddress] at hok
      cases hok
    | ok text =>
      rw [haddress] at hok
      cases hok
      obtain ⟨v, rfl⟩ := address_written haddress
      exact ⟨some v, rfl⟩

theorem transaction_written {index : Nat} {hashes : List String} {item : Json} {tx : EvmTransaction}
    (hok : Decode.transaction p header expected index hashes item = .ok tx) :
    ∃ v, TransactionWritten p tx v := by
  obtain ⟨_, _, hok⟩ := bind_eq_ok.mp hok
  obtain ⟨_, _, hok⟩ := bind_eq_ok.mp hok
  obtain ⟨_, _, hok⟩ := bind_eq_ok.mp hok
  obtain ⟨_, hfrom, hok⟩ := bind_eq_ok.mp hok
  obtain ⟨_, hto, hok⟩ := bind_eq_ok.mp hok
  obtain ⟨_, hinput, hok⟩ := bind_eq_ok.mp hok
  cases pure_eq_ok.mp hok
  obtain ⟨sender, rfl⟩ := address_written hfrom
  obtain ⟨recipient, rfl⟩ := toAddress_written hto
  obtain ⟨input, rfl⟩ := bytes_written hinput
  exact ⟨⟨recipient, sender, input⟩, rfl, rfl, rfl⟩

theorem transactions_written {items : List Json} {txs : List EvmTransaction} {index : Nat}
    {hashes : List String} (hok : Decode.transactions p header expected index hashes items = .ok txs) :
    ∃ vs, List.Forall₂ (TransactionWritten p) txs vs := by
  induction items generalizing index hashes txs with
  | nil =>
    cases hok
    exact ⟨[], .nil⟩
  | cons item items ih =>
    obtain ⟨decoded, hdecoded, hok⟩ := bind_eq_ok.mp hok
    obtain ⟨others, hothers, hok⟩ := bind_eq_ok.mp hok
    cases pure_eq_ok.mp hok
    obtain ⟨v, hv⟩ := transaction_written hdecoded
    obtain ⟨vs, hvs⟩ := ih hothers
    exact ⟨v :: vs, .cons hv hvs⟩

theorem log_written {txs : List EvmTransaction} {item : Json} {l : EvmLog}
    (hok : Decode.log p header expected txs item = .ok l) : ∃ v, LogWritten p l v := by
  obtain ⟨_, _, hok⟩ := bind_eq_ok.mp hok
  obtain ⟨_, _, hok⟩ := bind_eq_ok.mp hok
  obtain ⟨topics, htopics, hok⟩ := bind_eq_ok.mp hok
  obtain ⟨_, _, hok⟩ := bind_eq_ok.mp hok
  obtain ⟨_, haddress, hok⟩ := bind_eq_ok.mp hok
  obtain ⟨_, _, hok⟩ := bind_eq_ok.mp hok
  obtain ⟨_, _, hok⟩ := bind_eq_ok.mp hok
  cases pure_eq_ok.mp hok
  obtain ⟨a, rfl⟩ := address_written haddress
  have hhashes : ∀ topic ∈ topics, ∃ v, p.formatB256 v = topic := by
    intro topic htopic
    obtain ⟨_, _, hitem⟩ := exists_of_mem_mapM htopics htopic
    exact hash_written hitem
  obtain ⟨vs, hvs⟩ := exists_forall₂.mpr hhashes
  have hmapped : List.Forall₂ (· = ·) topics (vs.map p.formatB256) :=
    List.forall₂_map_right_iff.mpr (hvs.imp fun _ _ hv => hv.symm)
  rw [List.forall₂_eq_eq_eq] at hmapped
  exact ⟨⟨a, vs⟩, rfl, hmapped⟩

theorem decoded_normalised {value logs : Json} {b : EvmBlock}
    (hok : Decode.block p value logs expected = .ok b) : ∃ v, Normalised p b v := by
  obtain ⟨items, decoded, -, hdecoded, hperm⟩ := (block_ok hok).oneForEachLog
  obtain ⟨_, _, hok⟩ := bind_eq_ok.mp hok
  obtain ⟨_, _, hok⟩ := bind_eq_ok.mp hok
  obtain ⟨txs, htxs, hok⟩ := bind_eq_ok.mp hok
  obtain ⟨_, _, hok⟩ := bind_eq_ok.mp hok
  obtain ⟨_, _, hok⟩ := bind_eq_ok.mp hok
  obtain ⟨_, _, hok⟩ := bind_eq_ok.mp hok
  obtain ⟨_, _, hok⟩ := bind_eq_ok.mp hok
  obtain ⟨_, _, hok⟩ := bind_eq_ok.mp hok
  have hlogs : ∀ l ∈ b.logs, ∃ v, LogWritten p l v := by
    intro l hl
    obtain ⟨item, -, hitem⟩ := exists_left hdecoded (hperm.mem_iff.mp hl)
    exact log_written hitem
  obtain ⟨logValues, hlogValues⟩ := exists_forall₂.mpr hlogs
  obtain ⟨txValues, htxValues⟩ := transactions_written htxs
  refine ⟨⟨b.number, logValues, txValues⟩, rfl, hlogValues, ?_⟩
  cases pure_eq_ok.mp hok
  exact htxValues

end Decoded

end SuperqueryNode.Evm
