/-
  Compiling a category to a query.

  A category is compiled on a path, the ids of the categories that are being compiled already; a
  category on the path is left out, so that categories may refer to each other in circles.

  * `Compiled` is the outcome: the query, or none for "no restriction", the ids that were looked for
    on the path (`consulted`), and those that were found there (`cut`);
  * `Compiler` is what compiling one category takes from its surroundings: how a virtual root is
    found and how another category is compiled;
  * `Compiler.compile` compiles one category: a static one to a test of its id, a virtual one to its
    rule within its virtual root; active descendants are added to what it matches.

  A disabled category matches nothing, or is no restriction, as the settings say.
-/
import Merchandising.Catalog.Basic
import Merchandising.Rule.Translator
import Merchandising.Settings

namespace Merchandising

/-- A compiled query with what its path had to do with it. -/
structure Compiled where
  /-- Nothing for "no restriction". -/
  query : Option Fragment
  /-- The ids that were looked for on the path. -/
  consulted : IdSet
  /-- Those that were found there, and left out. -/
  cut : IdSet

namespace Compiled

/-- No restriction, whatever the path. -/
def unrestricted : Compiled := ⟨none, ∅, ∅⟩

/-- Looking for ids on a path. -/
def look (path : IdSet) (ids : List CategoryId) : Compiled :=
  ⟨none, IdSet.ofList ids, (IdSet.ofList ids).filter fun id => id ∈ path⟩

/-- The outcome with the ids that another one consulted and cut as well. -/
def absorb (a b : Compiled) : Compiled :=
  ⟨a.query, a.consulted.union b.consulted, a.cut.union b.cut⟩

end Compiled

/-! ## Parts of a query -/

/-- The categories that are virtual roots: those below the root of the tree. -/
def Catalog.root? (c : Catalog) (store : StoreId) (id : CategoryId) : Option Category :=
  (c.load? store id).filter fun r => 1 ≤ r.level

/-- The active descendants that may add to what a category matches: all of a virtual one, and the
    virtual ones of a static one. -/
def Catalog.contributors (c : Catalog) (store : StoreId) (e : Category) : List Category :=
  (c.descendants store e).filter fun d => d.isActive && (e.isVirtual || d.isVirtual)

/-- The query of a virtual category: its rule within its virtual root. -/
def withinRoot : Option Fragment → Option Fragment → Option Fragment
  | some own, some root =>
    some ((Fragment.all [own, root]).named
      (own.name.getD "" ++ " (virtual root: " ++ root.name.getD "" ++ ")"))
  | some own, none => some own
  | none, root => root

/-- The query of a category with what its descendants add. -/
def withAdditions (c : Category) (base : Fragment) : List Fragment → Fragment
  | [] => base
  | additions => (Fragment.any (base :: additions)).named (c.label ++ " with children")

/-! ## One category -/

/-- What compiling a category takes from its surroundings. -/
structure Compiler (m : Type → Type) where
  settings : Settings
  catalog : Catalog
  translator : Translator
  ctx : Context
  /-- The virtual root of a category, if it restricts anything. -/
  root : Category → m (Option Category)
  /-- Another category, compiled on a path. -/
  resolve : Category → IdSet → m Compiled
  /-- What happened. -/
  report : Event → m Unit

namespace Compiler

variable {m : Type → Type} [Monad m] [MonadExceptOf Failure m] (s : Compiler m)

/-- The products that are assigned to one of some categories. -/
def membership (ids : List CategoryId) : Except Failure Fragment :=
  s.translator.condition s.ctx
    ⟨s.settings.categoryField, .oneOf, .list (ids.map Scalar.ofWord64)⟩

/-- The query of the virtual root of a category. -/
def rootQuery (c : Category) (path : IdSet) : m Compiled := do
  match ← s.root c with
  | none => return .unrestricted
  | some root =>
    let seen := Compiled.look path root.path
    if seen.cut.isEmpty then
      let r ← s.resolve root path
      return r.absorb seen
    else
      s.report .rootOnPath
      return seen

/-- The query of a virtual category without its descendants. -/
def virtualQuery (c : Category) (path : IdSet) : m Compiled := do
  let own ← MonadExcept.ofExcept (s.translator.rule s.ctx c.rule)
  let r ← s.rootQuery c path
  return { r with query := withinRoot (own.map fun f => f.named c.label) r.query }

/-- The query of a static category without its descendants. -/
def staticQuery (c : Category) (id : CategoryId) : m Compiled := do
  let f ← MonadExcept.ofExcept (s.membership [id])
  return { Compiled.unrestricted with query := some (f.named c.label) }

/-- The query of a category without its descendants. -/
def baseQuery (c : Category) (path : IdSet) : m Compiled :=
  if !c.isActive then pure .unrestricted
  else if c.isVirtual then s.virtualQuery c path
  else match c.id with
    | some id => s.staticQuery c id
    | none => pure .unrestricted

/-- The static descendants of a category, under one test of their ids. -/
def staticAdditions (c : Category) : List CategoryId → Except Failure (List Fragment)
  | [] => .ok []
  | ids => do
    let f ← s.membership ids
    return [f.named ("Children of " ++ c.label)]

/-- The query of a category with what its descendants add to `base`. -/
def foldChildren (c : Category) (base : Fragment) (path : IdSet) : m Compiled := do
  let children := s.catalog.contributors s.ctx.store c
  let seen := Compiled.look path (children.filterMap Category.id)
  let open_ := children.filter fun d => d.id.any fun id => id ∉ path
  let resolved ← (open_.filter Category.isVirtual).mapM fun d => s.resolve d path
  let statics ← MonadExcept.ofExcept
    (s.staticAdditions c ((open_.filter fun d => !d.isVirtual).filterMap Category.id))
  let additions := resolved.filterMap Compiled.query ++ statics
  return { resolved.foldl Compiled.absorb seen with
    query := some (withAdditions c base additions) }

/-- The query of a category that is not on the path; `path` holds its id already. -/
def compileOpen (c : Category) (path : IdSet) : m Compiled := do
  if !c.isActive && s.settings.hidesDisabledIn s.ctx.store then
    return { Compiled.unrestricted with query := some (.matchNothing s.settings.idField) }
  else
    let base ← s.baseQuery c path
    let r ← match base.query with
      | none => pure base
      | some f => do
        let folded ← s.foldChildren c f path
        pure (folded.absorb base)
    s.report .built
    return r

/-- The query of a category. -/
def compile (c : Category) (path : IdSet) : m Compiled := do
  match c.id with
  | none => s.compileOpen c path
  | some id =>
    let seen := Compiled.look path [id]
    if id ∈ path then
      s.report .onPath
      return seen
    else
      let r ← s.compileOpen c (path.insert id)
      return r.absorb seen

end Compiler

end Merchandising
