/-
  Compiling anew looks at one store only.

  * `Settings.AlikeIn` are settings that make no difference to what is compiled for a store;
  * `Fresh.compile_alike`: with such settings, and on catalogs that hold the same categories for the
    store, compiling anew comes to the same;
  * `Request.anew_alike`: so do the answers to requests that are for the store.

  The bounds on the depth differ with the sizes of the catalogs; they are never reached.
-/
import Merchandising.Proofs.Resolver.Anew
import Merchandising.Proofs.Resolver.Runs

namespace Merchandising

/-- Settings that make no difference to what is compiled for a store. -/
structure Settings.AlikeIn (store : StoreId) (a b : Settings) : Prop where
  categoryField : a.categoryField = b.categoryField
  idField : a.idField = b.idField
  hidesDisabled : a.hidesDisabledIn store = b.hidesDisabledIn store

/-- What the local tier keeps makes no difference, nor what is said about other stores. -/
theorem Settings.alikeIn_of_overrides {store : StoreId} (a : Settings) (capacity : Nat)
    {overrides : List (StoreId × Bool)} (h : overrides.lookup store = a.overrides.lookup store) :
    a.AlikeIn store { a with capacity, overrides } where
  categoryField := rfl
  idField := rfl
  hidesDisabled := by rw [hidesDisabledIn, hidesDisabledIn, h]

/-! ## One category -/

namespace Compiler

variable {m : Type → Type}

/-- Compilers that differ in nothing but settings and catalogs that are alike in their store. -/
structure Alike (s t : Compiler m) : Prop where
  settings : s.settings.AlikeIn s.ctx.store t.settings
  catalog : s.catalog.AlikeIn s.ctx.store t.catalog
  translator : s.translator = t.translator
  ctx : s.ctx = t.ctx
  root : s.root = t.root
  resolve : s.resolve = t.resolve
  report : s.report = t.report

variable {s t : Compiler m} (h : s.Alike t) (c : Category) (path : IdSet)
include h

theorem Alike.membership (ids : List CategoryId) : s.membership ids = t.membership ids := by
  unfold Compiler.membership
  rw [h.translator, h.ctx, h.settings.categoryField]

variable [Monad m]

theorem Alike.rootQuery : s.rootQuery c path = t.rootQuery c path := by
  unfold Compiler.rootQuery
  rw [h.root, h.resolve, h.report]

variable [MonadExceptOf Failure m]

theorem Alike.baseQuery : s.baseQuery c path = t.baseQuery c path := by
  unfold Compiler.baseQuery Compiler.virtualQuery Compiler.staticQuery
  rw [h.translator, h.ctx, h.rootQuery]
  simp only [h.membership]

theorem Alike.foldChildren (base : Fragment) :
    s.foldChildren c base path = t.foldChildren c base path := by
  have hstatics : s.staticAdditions c = t.staticAdditions c := by
    funext ids
    unfold Compiler.staticAdditions
    simp only [h.membership]
  have hcontributors : s.catalog.contributors s.ctx.store c =
      t.catalog.contributors t.ctx.store c := by
    rw [Catalog.contributors, Catalog.contributors, h.catalog.descendants_eq, h.ctx]
  unfold Compiler.foldChildren
  rw [hstatics, hcontributors, h.resolve]

theorem Alike.compileOpen : s.compileOpen c path = t.compileOpen c path := by
  have hfold : s.foldChildren c = t.foldChildren c := by
    funext base path
    exact h.foldChildren c path base
  unfold Compiler.compileOpen
  rw [h.baseQuery, hfold, h.report, h.settings.hidesDisabled, h.settings.idField, h.ctx]

theorem Alike.compile : s.compile c path = t.compile c path := by
  unfold Compiler.compile
  simp only [h.compileOpen, h.report]

end Compiler

/-! ## Compiling anew -/

namespace Fresh

section
variable {settings settings' : Settings} {catalog catalog' : Catalog} {ctx : Context}
  (hsettings : settings.AlikeIn ctx.store settings')
  (hcatalog : catalog.AlikeIn ctx.store catalog')

include hcatalog in
theorem root?_alike (c : Category) : root? catalog ctx.store c = root? catalog' ctx.store c := by
  unfold root? Catalog.root?
  simp only [hcatalog.load?_eq]

include hsettings hcatalog

theorem resolve_alike (translator : Translator) (n : Nat) :
    resolve settings catalog translator ctx n = resolve settings' catalog' translator ctx n := by
  induction n with
  | zero => rfl
  | succ n ih =>
    have halike : (compiler settings catalog translator ctx
        (resolve settings catalog translator ctx n)).Alike
        (compiler settings' catalog' translator ctx
          (resolve settings' catalog' translator ctx n)) :=
      ⟨hsettings, hcatalog, rfl, rfl, funext fun c => congrArg Except.ok (root?_alike hcatalog c),
        ih, rfl⟩
    funext c path
    exact halike.compile c path

/-- **Compiling anew looks at one store only.** -/
theorem compile_alike (translator : Translator) :
    compile settings catalog translator ctx = compile settings' catalog' translator ctx := by
  funext c path
  have hle := Nat.le_max_left (catalog.size + 2) (catalog'.size + 2)
  have hle' := Nat.le_max_right (catalog.size + 2) (catalog'.size + 2)
  rw [← resolve_eq_compile _ _ _ _ c path hle, ← resolve_eq_compile _ _ _ _ c path hle',
    resolve_alike hsettings hcatalog]

end

end Fresh

/-- Requests for a store and a group are answered alike. -/
theorem Request.anew_alike {settings settings' : Settings} {catalog catalog' : Catalog}
    {ctx : Context} (hsettings : settings.AlikeIn ctx.store settings')
    (hcatalog : catalog.AlikeIn ctx.store catalog') (translator : Translator) {r : Request}
    (hr : ctx ∈ r.contexts) :
    r.anew settings catalog translator = r.anew settings' catalog' translator := by
  have hcompile := Fresh.compile_alike hsettings hcatalog translator
  cases r with
  | query ctx' c | resolve ctx' c path | build ctx' c path | merge ctx' cs =>
    obtain rfl := List.mem_singleton.1 hr
    simp only [anew, hcompile]
  | virtualRoot store c => nomatch hr

end Merchandising
