import SuperqueryNode.ChainApi.Types
import SuperqueryNode.Lib.Fallible
import SuperqueryNode.Lib.Serde

namespace SuperqueryNode.ChainApi

inductive HandlerKind where
  | block
  | transaction
  | event
deriving DecidableEq, Repr

structure BlockFilter where
  modulo : Option Nat
  timestamp : Option String
deriving DecidableEq, Repr

structure Filter where
  handler : HandlerKind
  block : BlockFilter
  params : Json

namespace Filter

def new (handler : HandlerKind) : Filter := ⟨handler, ⟨none, none⟩, .null⟩

-- `complaint` is the text of serde's error.
def parseParams {T : Type} (complaint : Json → String) (c : Codec T) (f : Filter) :
    Except ChainError T :=
  Fallible.okOr (c.fromValue f.params) (.decode ("invalid filter params: " ++ complaint f.params))

theorem parseParams_toValue {T : Type} {complaint : Json → String} {c : Codec T} {f : Filter} {t : T}
    (h : f.params = c.toValue t) : f.parseParams complaint c = .ok t := by
  rw [parseParams, h, c.fromValue_toValue]
  rfl

end Filter

end SuperqueryNode.ChainApi
