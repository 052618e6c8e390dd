import SuperqueryNode.Core.Error

namespace SuperqueryNode.Store
open Unsigned ChainApi

def bigintMax : Int := 2 ^ 63 - 1

structure Bigint where
  val : Int
  lower : -2 ^ 63 ≤ val
  upper : val ≤ bigintMax
deriving DecidableEq, Repr

def sqlHeight (height : Nat) : Except StoreError Bigint :=
  if h : (height : Int) ≤ bigintMax then .ok ⟨height, by omega, h⟩
  else .error (.decode s!"height {height} exceeds PostgreSQL bigint")

theorem sqlHeight_of_le {height : Nat} (h : (height : Int) ≤ bigintMax) :
    ∃ x, sqlHeight height = .ok x ∧ x.val = height := ⟨_, dif_pos h, rfl⟩

theorem sqlHeight_ok {height : Nat} {x : Bigint} (h : sqlHeight height = .ok x) :
    x.val = height := by
  rw [sqlHeight] at h
  split_ifs at h
  cases h
  rfl

theorem sqlHeight_error {height : Nat} (h : ¬(height : Int) ≤ bigintMax) :
    ∃ e, sqlHeight height = .error e := ⟨_, dif_neg h⟩

-- A `timestamptz` travels as whole microseconds counted from 2000-01-01.
def timestampBase : Int := 946684800 * 10 ^ 9

def timestampToSql (t : DateTime) : Int := (t.nanos - timestampBase).tdiv 1000

def timestampFromSql (micros : Int) : DateTime := ⟨timestampBase + micros * 1000⟩

theorem timestampFromSql_toSql {t : DateTime} (h : 1000 ∣ t.nanos) :
    timestampFromSql (timestampToSql t) = t := by
  have hbase : (1000 : Int) ∣ t.nanos - timestampBase := Int.dvd_sub h (by decide)
  have hexact := Int.tdiv_mul_cancel hbase
  obtain ⟨nanos⟩ := t
  simp only [timestampFromSql, timestampToSql, hexact, DateTime.mk.injEq]
  omega

def validateIdent (ident : String) : Except StoreError Unit :=
  if !ident.isEmpty && ident.utf8ByteSize ≤ 63 &&
      ident.toList.all (fun c => c.isAlphanum || c == '_') &&
      !ident.toList.head?.any Char.isDigit then .ok ()
  else .error (.invalidIdentifier ident)

def transaction {S A : Type} (state : S) (body : S → Except StoreError (A × S)) :
    Except StoreError A × S :=
  match body state with
  | .ok (value, committed) => (.ok value, committed)
  | .error e => (.error e, state)

section Transaction
variable {S A : Type} {state : S} {body : S → Except StoreError (A × S)}

theorem transaction_ok {value : A} {committed : S} (h : body state = .ok (value, committed)) :
    transaction state body = (.ok value, committed) := by
  rw [transaction, h]

theorem transaction_error {e : StoreError} (h : body state = .error e) :
    transaction state body = (.error e, state) := by
  rw [transaction, h]

theorem transaction_keeps {P : S → Prop} (hs : P state)
    (hbody : ∀ value committed, body state = .ok (value, committed) → P committed) :
    P (transaction state body).2 := by
  cases h : body state with
  | ok r =>
    rw [transaction_ok h]
    exact hbody r.1 r.2 h
  | error e =>
    rw [transaction_error h]
    exact hs

end Transaction
end SuperqueryNode.Store
