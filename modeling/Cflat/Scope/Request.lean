import Cflat.Scope.Change

/-!
# Requests to a scope tree

Everything that can be asked of a tree: to declare, to open a scope, to look a name up,
or to list.  Asking for a class of variables classifies the tree.
-/

namespace Cflat.Scope

/-- The lists that can be asked for; `classes` is all classes at once. -/
inductive Query
  | entities
  | functions
  | locals (place : Place)
  | classes
  | all
  | initialized
  | common
  | externals
  | statics
  deriving DecidableEq, Repr

/-- Whether a query asks for classes. -/
def Query.classifies : Query → Bool
  | entities | functions | locals _ => false
  | classes | all | initialized | common | externals | statics => true

/-- What can be asked of a tree. -/
inductive Request (ι : Type)
  | declare (place : Place) (e : Entity ι)
  | openBody (function : Entity ι)
  | openBlock (place : Place)
  | get (place : Place) (name : String)
  | list (query : Query)
  deriving DecidableEq, Repr

/-- Whether a request asks for a change of the tree. -/
def Request.changes {ι : Type} : Request ι → Bool
  | declare _ _ | openBody _ | openBlock _ => true
  | get _ _ | list _ => false

/-- The answer to a request.  Lists come with the symbols of their entities. -/
inductive Reply (ι : Type)
  | done
  | opened (place : Place)
  | found (e : Entity ι)
  | listed (lists : List (List (Entity ι × String)))
  deriving DecidableEq, Repr

variable {ι : Type}

namespace Change

/-- The classes of the tree, which are kept from then on. -/
def classify : Change ι (Classes ι) :=
  modifyGet Tree.classify

/-- The lists that a query asks for. -/
def lists : Query → Change ι (List (List (Entity ι)))
  | .entities => do return [(← get).entities]
  | .functions => do return [(← get).functions]
  | .locals place => do return [(← block place).vars]
  | .classes => do
    let c ← classify
    return [c.all, c.initialized, c.common, c.externals, c.statics]
  | .all => do return [(← classify).all]
  | .initialized => do return [(← classify).initialized]
  | .common => do return [(← classify).common]
  | .externals => do return [(← classify).externals]
  | .statics => do return [(← classify).statics]

variable [DecidableEq ι]

/-- Do what a request asks for. -/
def answer : Request ι → Change ι (Reply ι)
  | .declare place e => do
    declare place e
    return .done
  | .openBody function => do return .opened (← openBody function)
  | .openBlock place => do return .opened (← openBlock place)
  | .get place name => do
    let e ← MonadExcept.ofExcept ((← get).resolve place name)
    return .found e
  | .list query => do
    let ls ← lists query
    let t ← get
    return .listed (ls.map fun es => es.map fun e => (e, t.symbol e))

end Change

/-- The answer to a request, and the tree after it. -/
def Tree.respond [DecidableEq ι] (t : Tree ι) (r : Request ι) :
    Except ScopeError (Reply ι) × Tree ι :=
  t.apply (.answer r)

end Cflat.Scope
