/-
  Compiling without any cache.

  `Fresh.resolve` compiles every category anew and reads every virtual root from the catalog.
  `depth` bounds how deep categories may refer to each other; no chain of references is longer than
  there are categories, so `Fresh.compile` allows two more than that.
-/
import Merchandising.Resolver.Compiler

namespace Merchandising.Fresh

/-- The virtual root of a category. -/
def root? (catalog : Catalog) (store : StoreId) (c : Category) : Option Category :=
  match c.virtualRoot with
  | none => none
  | some id => if c.storeRoot? = some id then none else catalog.root? store id

/-- How a category is compiled anew, with a way to compile others. -/
def compiler (settings : Settings) (catalog : Catalog) (translator : Translator) (ctx : Context)
    (resolve : Category → IdSet → Except Failure Compiled) : Compiler (Except Failure) where
  settings
  catalog
  translator
  ctx
  root c := .ok (root? catalog ctx.store c)
  resolve
  report _ := .ok ()

/-- A category, compiled anew with at most `depth` references inside each other. -/
def resolve (settings : Settings) (catalog : Catalog) (translator : Translator) (ctx : Context) :
    Nat → Category → IdSet → Except Failure Compiled
  | 0, _, _ => .error .tooDeep
  | depth + 1, c, path =>
    (compiler settings catalog translator ctx
      (resolve settings catalog translator ctx depth)).compile c path

/-- A category, compiled anew. -/
def compile (settings : Settings) (catalog : Catalog) (translator : Translator) (ctx : Context)
    (c : Category) (path : IdSet) : Except Failure Compiled :=
  resolve settings catalog translator ctx (catalog.size + 2) c path

end Merchandising.Fresh
