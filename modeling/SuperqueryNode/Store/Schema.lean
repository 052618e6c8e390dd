import SuperqueryNode.Core.Error

namespace SuperqueryNode.Store

structure EntityField where
  name : String
  baseType : String
  isArray : Bool
  nullable : Bool
deriving DecidableEq, Repr

structure EntityModel where
  name : String
  fields : List EntityField
deriving DecidableEq, Repr

inductive GraphqlType where
  | named (name : String)
  | list (inner : GraphqlType)
  | nonNull (inner : GraphqlType)
deriving DecidableEq, Repr

structure FieldDefinition where
  name : String
  fieldType : GraphqlType
deriving DecidableEq, Repr

structure ObjectType where
  name : String
  directives : List String
  fields : List FieldDefinition
deriving DecidableEq, Repr

-- `other` is any definition that is not an object type.
inductive Definition where
  | object (obj : ObjectType)
  | other
deriving DecidableEq, Repr

def nameStart (c : Char) : Bool := c.isAlpha || c == '_'

def nameContinue (c : Char) : Bool := c.isAlphanum || c == '_'

def isName : List Char → Bool
  | [] => false
  | c :: cs => nameStart c && cs.all nameContinue

-- The third-party parser, with what the GraphQL grammar says of the names it returns.
structure GraphqlParser where
  parseSchema : String → Except String (List Definition)
  names : ∀ sdl doc obj, parseSchema sdl = .ok doc → .object obj ∈ doc →
    isName obj.name.toList = true ∧ ∀ f ∈ obj.fields, isName f.name.toList = true

def baseAndArray : GraphqlType → String × Bool
  | .named n => (n, false)
  | .list inner => ((baseAndArray inner).1, true)
  | .nonNull inner => baseAndArray inner

def entityField (f : FieldDefinition) : EntityField where
  name := f.name
  baseType := (baseAndArray f.fieldType).1
  isArray := (baseAndArray f.fieldType).2
  nullable := match f.fieldType with
    | .nonNull _ => false
    | _ => true

def entityModel : Definition → Option EntityModel
  | .object obj => if obj.directives.any (· == "entity") then
      some ⟨obj.name, obj.fields.map entityField⟩
    else none
  | .other => none

def parseEntities (parser : GraphqlParser) (sdl : String) : Except StoreError (List EntityModel) :=
  match parser.parseSchema sdl with
  | .error e => .error (.schema e)
  | .ok doc => .ok (doc.filterMap entityModel)

theorem parseEntities_names {parser : GraphqlParser} {sdl : String} {models : List EntityModel}
    (h : parseEntities parser sdl = .ok models) : ∀ m ∈ models,
      isName m.name.toList = true ∧ ∀ f ∈ m.fields, isName f.name.toList = true := by
  intro m hm
  rw [parseEntities] at h
  cases hdoc : parser.parseSchema sdl with
  | error e =>
    rw [hdoc] at h
    cases h
  | ok doc =>
    rw [hdoc] at h
    cases h
    obtain ⟨definition, hmem, hmodel⟩ := List.mem_filterMap.mp hm
    cases definition with
    | other => cases hmodel
    | object obj =>
      rw [entityModel] at hmodel
      split_ifs at hmodel
      cases hmodel
      obtain ⟨hname, hfields⟩ := parser.names sdl doc obj hdoc hmem
      refine ⟨hname, ?_⟩
      intro f hf
      obtain ⟨g, hg, rfl⟩ := List.mem_map.mp hf
      exact hfields g hg

end SuperqueryNode.Store
