/-
  What a compiled category selects.

  * `ReadsIds` is a reading of documents that takes tests of the category field as tests of the ids
    that a document carries;
  * `OpenRoot` and `OpenBelow` say which virtual root and which descendants count for a category on a
    path, by what is saved and by where it is stored; `SelectedItself` and `SelectedBelow` say which
    documents the category selects itself and through its descendants;
  * `SelectsExactly` is a way of resolving categories, each to no restriction where that is meant,
    and otherwise to a query that matches exactly these documents;
  * `Fresh.selectsExactly_compile`: compiling anew is such a way;
  * `Worker.first` is what a worker that has not worked yet resolves a category to; `Worker.first_eq`:
    that is what compiling it anew comes to;
  * `Worker.selects_exactly`: so that is such a way as well.
-/
import Merchandising.Proofs.Query.Matching
import Merchandising.Proofs.Rule.Meaning
import Merchandising.Proofs.Resolver.Bookkeeping

namespace Merchandising

open Failure (bind_eq_ok pure_eq_ok)

/-! ## What is to be selected -/

/-- How categories are resolved to queries. -/
abbrev Resolution := Category → IdSet → Except Failure (Option Fragment)

/-- A reading of documents that takes tests of a field as tests of the ids that a document carries. -/
structure ReadsIds {Doc : Type} (I : Interpretation Doc) (field : String)
    (carries : Doc → CategoryId → Bool) : Prop where
  term : ∀ d id, I (.term field (.ofWord64 id)) d = carries d id
  terms : ∀ d (ids : List CategoryId),
    I (.terms field (ids.map Scalar.ofWord64)) d = ids.any (carries d)

/-- A saved category is the virtual root of another one: that names it, though not as the root of its
    own store, and it is stored below the root of the tree.  Its path does not meet the one that is
    compiled on. -/
structure OpenRoot (catalog : Catalog) (store : StoreId) (c : Category) (path : IdSet)
    (root : Category) (id : CategoryId) : Prop where
  named : c.virtualRoot = some id
  notStoreRoot : c.path[1]? ≠ some id
  saved : root ∈ catalog.entries
  inStore : root.store = store
  hasId : root.id = some id
  belowTop : 2 ≤ root.path.length
  outside : ∀ i ∈ root.path, i ∉ path

/-- The virtual root of a category contributes a query. -/
def RootContributes (catalog : Catalog) (store : StoreId) (resolve : Resolution) (c : Category)
    (path : IdSet) (f : Fragment) : Prop :=
  ∃ root id, OpenRoot catalog store c path root id ∧ resolve root path = .ok (some f)

/-- An active category is stored strictly below another one, and its id is not on a path. -/
structure OpenBelow (catalog : Catalog) (store : StoreId) (c : Category) (path : IdSet)
    (x : Category) (id : CategoryId) : Prop where
  saved : x ∈ catalog.entries
  inStore : x.store = store
  below : c.path <+: x.path
  proper : c.path ≠ x.path
  active : x.isActive = true
  hasId : x.id = some id
  outside : id ∉ path

section
variable {Doc : Type} (catalog : Catalog) (translator : Translator) (ctx : Context)
  (I : Interpretation Doc) (carries : Doc → CategoryId → Bool) (resolve : Resolution)

/-- Whether a document is selected by an active category itself, compiled with its id on `path`. -/
def SelectedItself (c : Category) (id : CategoryId) (path : IdSet) (d : Doc) : Prop :=
  (c.isVirtual = false ∧ carries d id = true) ∨
  (c.isVirtual = true ∧
    (c.rule.conditions ≠ [] → c.rule.isTrue (translator.leafHolds ctx I d) = true) ∧
    ∀ f, RootContributes catalog ctx.store resolve c path f → f.holds I d = true)

/-- Whether a document is selected by what is stored below a category. -/
def SelectedBelow (c : Category) (path : IdSet) (d : Doc) : Prop :=
  (∃ x id f, OpenBelow catalog ctx.store c path x id ∧ x.isVirtual = true ∧
    resolve x path = .ok (some f) ∧ f.holds I d = true) ∨
  (c.isVirtual = true ∧ ∃ x id, OpenBelow catalog ctx.store c path x id ∧ x.isVirtual = false ∧
    carries d id = true)

end

/-- Categories are resolved to queries that select the documents that their definitions say. -/
structure SelectsExactly {Doc : Type} (settings : Settings) (catalog : Catalog)
    (translator : Translator) (ctx : Context) (I : Interpretation Doc)
    (carries : Doc → CategoryId → Bool) (resolve : Resolution) : Prop where
  /-- When there is no restriction. -/
  unrestricted : ∀ c id path q, c.id = some id → id ∉ path → resolve c path = .ok q →
    (q = none ↔
      (c.isActive = false ∧ settings.hidesDisabledIn ctx.store = false) ∨
      (c.isActive = true ∧ c.isVirtual = true ∧ c.rule.conditions = [] ∧
        ¬ ∃ f, RootContributes catalog ctx.store resolve c (path.insert id) f))
  /-- A disabled category matches nothing otherwise. -/
  hidden : ∀ c id path f, c.id = some id → id ∉ path → resolve c path = .ok (some f) →
    c.isActive = false → f = .matchNothing settings.idField
  /-- Which documents an active category selects. -/
  selected : ∀ c id path f, c.id = some id → id ∉ path → resolve c path = .ok (some f) →
    c.isActive = true → ∀ d, f.holds I d = true ↔
      SelectedItself catalog translator ctx I carries resolve c id (path.insert id) d ∨
      SelectedBelow catalog ctx I carries resolve c (path.insert id) d

/-! ## Tests of ids -/

section
variable {Doc : Type} {I : Interpretation Doc} {field : String} {carries : Doc → CategoryId → Bool}

/-- A test of a field is one of the ids that a document carries. -/
theorem ReadsIds.holds_oneOf (h : ReadsIds I field carries) (d : Doc) (ids : List CategoryId) :
    (Translator.oneOf field (ids.map Scalar.ofWord64)).holds I d = ids.any (carries d) := by
  match ids with
  | [] => exact h.terms d []
  | [id] =>
    rw [List.any_cons, List.any_nil, Bool.or_false]
    exact h.term d id
  | id :: id' :: r => exact h.terms d (id :: id' :: r)

end

/-- A field of ids that is no special attribute and not declared is tested as it is. -/
theorem Translator.condition_ids {t : Translator} {field : String}
    (hspecial : t.registry.get? field = none) (hfield : t.field? field = none) (ctx : Context)
    (ids : List CategoryId) :
    t.condition ctx ⟨field, .oneOf, .list (ids.map Scalar.ofWord64)⟩ =
      .ok (oneOf field (ids.map Scalar.ofWord64)) := by
  have hproperty : t.property field = field := by rw [property, hfield]
  have hplain : t.plainCondition ⟨field, .oneOf, .list (ids.map Scalar.ofWord64)⟩ =
      .ok (oneOf (t.property field) (ids.map Scalar.ofWord64)) := rfl
  rw [condition, hspecial]
  dsimp only
  rw [standard, hplain, hproperty, hfield]
  rfl

/-! ## Parts of a query -/

theorem withinRoot_eq_none {own root : Option Fragment} :
    withinRoot own root = none ↔ own = none ∧ root = none := by
  cases own <;> cases root <;> simp [withinRoot]

section
variable {Doc : Type} (I : Interpretation Doc) (d : Doc)

/-- A rule within a root matches what both match. -/
theorem holds_withinRoot {own root : Option Fragment} {f : Fragment}
    (h : withinRoot own root = some f) :
    f.holds I d = true ↔ (∀ g ∈ own, g.holds I d = true) ∧ ∀ g ∈ root, g.holds I d = true := by
  match own, root with
  | some o, some r =>
    obtain rfl := Option.some.inj h
    simp [Fragment.holds_named, Fragment.holds_all]
  | some o, none =>
    obtain rfl := Option.some.inj h
    simp
  | none, some r =>
    obtain rfl := Option.some.inj h
    simp

/-- What is added to a query is matched as well. -/
theorem holds_withAdditions (c : Category) (base : Fragment) (additions : List Fragment) :
    (withAdditions c base additions).holds I d = true ↔
      base.holds I d = true ∨ ∃ f ∈ additions, f.holds I d = true := by
  cases additions with
  | nil => simp [withAdditions]
  | cons f fs => simp [withAdditions, Fragment.holds_named, Fragment.holds_any]

end

/-- What is looked up is an open root, if its path does not meet the one that is compiled on. -/
theorem exists_openRoot {catalog : Catalog} {store : StoreId} {c root : Category} {path : IdSet} :
    (∃ id, OpenRoot catalog store c path root id) ↔
      Fresh.root? catalog store c = some root ∧ ∀ i ∈ root.path, i ∉ path := by
  rw [Fresh.root?_eq_some]
  constructor
  · rintro ⟨id, h⟩
    exact ⟨⟨id, h.named, h.notStoreRoot, h.saved, h.inStore, h.hasId, h.belowTop⟩, h.outside⟩
  · rintro ⟨⟨id, hnamed, hstore, hsaved, hs, hid, htop⟩, hout⟩
    exact ⟨id, hnamed, hstore, hsaved, hs, hid, htop, hout⟩

/-- What contributes is what the root that is looked up is resolved to. -/
theorem rootContributes_iff {catalog : Catalog} {store : StoreId} {resolve : Resolution}
    {c : Category} {path : IdSet} {f : Fragment} :
    RootContributes catalog store resolve c path f ↔
      ∃ root, Fresh.root? catalog store c = some root ∧ (∀ i ∈ root.path, i ∉ path) ∧
        resolve root path = .ok (some f) := by
  simp only [RootContributes, exists_and_right, exists_openRoot, and_assoc]

/-- The descendants that may add to a category, and are not on the path. -/
theorem mem_openContributors {catalog : Catalog} {store : StoreId} {c x : Category} {path : IdSet} :
    x ∈ (catalog.contributors store c).filter (fun d => d.id.any fun id => id ∉ path) ↔
      (∃ id, OpenBelow catalog store c path x id) ∧ (c.isVirtual = true ∨ x.isVirtual = true) := by
  simp only [Catalog.contributors, List.mem_filter, Catalog.mem_descendants, Bool.and_eq_true,
    Bool.or_eq_true, Option.any_eq_true, decide_eq_true_eq]
  constructor
  · rintro ⟨⟨⟨hsaved, hstore, hbelow, hproper⟩, hactive, hvirtual⟩, id, hid, hout⟩
    exact ⟨⟨id, hsaved, hstore, hbelow, hproper, hactive, hid, hout⟩, hvirtual⟩
  · rintro ⟨⟨id, h⟩, hvirtual⟩
    exact ⟨⟨⟨h.saved, h.inStore, h.below, h.proper⟩, h.active, hvirtual⟩, id, h.hasId, h.outside⟩

/-- The virtual ones among them, which add their queries. -/
theorem mem_virtualContributors {catalog : Catalog} {store : StoreId} {c x : Category}
    {path : IdSet} :
    x ∈ ((catalog.contributors store c).filter fun d => d.id.any fun id => id ∉ path).filter
        Category.isVirtual ↔
      (∃ id, OpenBelow catalog store c path x id) ∧ x.isVirtual = true := by
  rw [List.mem_filter, mem_openContributors, and_assoc]
  exact and_congr_right fun _ => ⟨And.right, fun h => ⟨Or.inr h, h⟩⟩

/-- The ids of the static ones, which are added to virtual categories only. -/
theorem mem_staticContributors {catalog : Catalog} {store : StoreId} {c : Category} {path : IdSet}
    {id : CategoryId} :
    id ∈ (((catalog.contributors store c).filter fun d => d.id.any fun id => id ∉ path).filter
        fun d => !d.isVirtual).filterMap Category.id ↔
      c.isVirtual = true ∧ ∃ x, OpenBelow catalog store c path x id ∧ x.isVirtual = false := by
  rw [List.mem_filterMap]
  constructor
  · rintro ⟨x, hx, hid⟩
    obtain ⟨hopen, hstatic⟩ := List.mem_filter.1 hx
    obtain ⟨⟨id', h⟩, hvirtual⟩ := mem_openContributors.1 hopen
    obtain rfl : id' = id := Option.some.inj (h.hasId.symm.trans hid)
    have hstatic : x.isVirtual = false := by simpa using hstatic
    exact ⟨hvirtual.resolve_right (by simp [hstatic]), x, h, hstatic⟩
  · rintro ⟨hvirtual, x, h, hstatic⟩
    have hopen := mem_openContributors.2 ⟨⟨id, h⟩, Or.inl hvirtual⟩
    exact ⟨x, List.mem_filter.2 ⟨hopen, by simp [hstatic]⟩, h.hasId⟩

/-- The queries of resolved categories. -/
def Resolution.of (r : Category → IdSet → Except Failure Compiled) : Resolution :=
  fun c path => (r c path).map Compiled.query

theorem Resolution.of_eq_ok {r : Category → IdSet → Except Failure Compiled} {c : Category}
    {path : IdSet} {q : Option Fragment} :
    Resolution.of r c path = .ok q ↔ ∃ y, r c path = .ok y ∧ y.query = q := by
  unfold Resolution.of
  cases r c path <;> simp [Except.map]

/-! ## Compiling anew -/

namespace Fresh

variable {Doc : Type} {settings : Settings} {catalog : Catalog} {translator : Translator}
  {ctx : Context} {r : Category → IdSet → Except Failure Compiled} {c : Category} {path : IdSet}
  {x : Compiled}

/-- What the virtual root contributes. -/
theorem query_rootQuery
    (h : (compiler settings catalog translator ctx r).rootQuery c path = .ok x) (f : Fragment) :
    x.query = some f ↔ RootContributes catalog ctx.store (.of r) c path f := by
  rw [rootQuery_eq_ok] at h
  rw [rootContributes_iff]
  split at h
  · rename_i hroot
    subst h
    simp [hroot, Compiled.unrestricted]
  · rename_i root hroot
    simp only [hroot, Option.some.injEq, exists_eq_left']
    split at h
    · rename_i hcut
      obtain ⟨y, hy, rfl⟩ := h
      simp only [Resolution.of_eq_ok, hy, Except.ok.injEq, exists_eq_left', Compiled.absorb]
      exact (and_iff_right (Compiled.cut_look_isEmpty.1 hcut)).symm
    · rename_i hcut
      subst h
      refine iff_of_false ?_ fun h => hcut (Compiled.cut_look_isEmpty.2 h.1)
      rintro ⟨⟩

section
variable {I : Interpretation Doc} {carries : Doc → CategoryId → Bool}
  (hids : ReadsIds I settings.categoryField carries)
  (hspecial : translator.registry.get? settings.categoryField = none)
  (hfield : translator.field? settings.categoryField = none)
include hids hspecial hfield

/-- A test of ids reads the ids that a document carries. -/
theorem holds_membership {ids : List CategoryId} {f : Fragment}
    (h : (compiler settings catalog translator ctx r).membership ids = .ok f) (d : Doc) :
    f.holds I d = ids.any (carries d) := by
  obtain rfl := Except.ok.inj ((Translator.condition_ids hspecial hfield ctx ids).symm.trans h)
  exact hids.holds_oneOf d ids

/-- What an active category selects itself. -/
theorem query_baseQuery (hactive : c.isActive = true) {id : CategoryId} (hid : c.id = some id)
    (h : (compiler settings catalog translator ctx r).baseQuery c path = .ok x) :
    (x.query = none ↔ c.isVirtual = true ∧ c.rule.conditions = [] ∧
      ¬ ∃ f, RootContributes catalog ctx.store (.of r) c path f) ∧
    ∀ f, x.query = some f → ∀ d, f.holds I d = true ↔
      SelectedItself catalog translator ctx I carries (.of r) c id path d := by
  rw [Compiler.baseQuery, if_neg (by simp [hactive])] at h
  split at h
  · -- a virtual category: its rule within its root
    rename_i hvirtual
    obtain ⟨own, y, hown, hy, rfl⟩ := virtualQuery_eq_ok.1 h
    obtain ⟨hnone, htrue⟩ := Translator.rule_eq_ok _ _ hown
    have hroot := query_rootQuery hy
    refine ⟨?_, fun f hf d => ?_⟩
    · have hnoRoot : y.query = none ↔ ¬ ∃ f, RootContributes catalog ctx.store (.of r) c path f := by
        simp only [Option.eq_none_iff_forall_ne_some, ne_eq, hroot, not_exists]
      rw [withinRoot_eq_none, Option.map_eq_none_iff, hnone, hnoRoot, and_iff_right hvirtual]
    · have hrule : (∀ g ∈ own.map fun f => f.named c.label, g.holds I d = true) ↔
          (c.rule.conditions ≠ [] → c.rule.isTrue (translator.leafHolds ctx I d) = true) := by
        cases own with
        | none => simp [hnone.1 rfl]
        | some o =>
          have hne : c.rule.conditions ≠ [] := fun hc => nomatch hnone.2 hc
          simp [Fragment.holds_named, htrue o rfl, hne]
      rw [holds_withinRoot I d hf, hrule]
      simp [SelectedItself, hvirtual, ← hroot]
  · -- a static one: a test of its id
    rename_i hvirtual
    rw [hid] at h
    obtain ⟨f, hf, rfl⟩ := staticQuery_eq_ok.1 h
    refine ⟨by simp [hvirtual], fun g hg d => ?_⟩
    obtain rfl := Option.some.inj hg
    simp [SelectedItself, hvirtual, Fragment.holds_named,
      holds_membership hids hspecial hfield hf]

/-- What the static descendants add. -/
theorem holds_staticAdditions {ids : List CategoryId} {fs : List Fragment}
    (h : (compiler settings catalog translator ctx r).staticAdditions c ids = .ok fs) (d : Doc) :
    (∃ f ∈ fs, f.holds I d = true) ↔ ∃ id ∈ ids, carries d id = true := by
  cases ids with
  | nil =>
    obtain rfl := Except.ok.inj h
    simp
  | cons id ids =>
    obtain ⟨f, hf, h⟩ := bind_eq_ok.1 h
    obtain rfl := Except.ok.inj h
    simp [Fragment.holds_named, holds_membership hids hspecial hfield hf]

/-- What the descendants of a category add. -/
theorem query_foldChildren {base : Fragment}
    (h : (compiler settings catalog translator ctx r).foldChildren c base path = .ok x) :
    ∃ f, x.query = some f ∧ ∀ d, f.holds I d = true ↔
      base.holds I d = true ∨ SelectedBelow catalog ctx I carries (.of r) c path d := by
  obtain ⟨resolved, statics, hresolved, hstatics, rfl⟩ := foldChildren_eq_ok.1 h
  refine ⟨_, rfl, fun d => ?_⟩
  have hvirtual : (∃ f ∈ resolved.filterMap Compiled.query, f.holds I d = true) ↔
      ∃ x id f, OpenBelow catalog ctx.store c path x id ∧ x.isVirtual = true ∧
        Resolution.of r x path = .ok (some f) ∧ f.holds I d = true := by
    constructor
    · rintro ⟨f, hf, hholds⟩
      obtain ⟨y, hy, hquery⟩ := List.mem_filterMap.1 hf
      obtain ⟨x, hx, hy⟩ := exists_of_forall₂ hresolved hy
      obtain ⟨⟨id, h⟩, hvirtual⟩ := mem_virtualContributors.1 hx
      exact ⟨x, id, f, h, hvirtual, Resolution.of_eq_ok.2 ⟨y, hy, hquery⟩, hholds⟩
    · rintro ⟨x, id, f, h, hvirtual, hresolve, hholds⟩
      obtain ⟨y, hy, hquery⟩ := Resolution.of_eq_ok.1 hresolve
      have hx := mem_virtualContributors.2 ⟨⟨id, h⟩, hvirtual⟩
      obtain ⟨y', hmem, hy'⟩ := exists_of_forall₂ hresolved.flip hx
      obtain rfl : y' = y := Except.ok.inj (hy'.symm.trans hy)
      exact ⟨f, List.mem_filterMap.2 ⟨y', hmem, hquery⟩, hholds⟩
  have hstatic : (∃ f ∈ statics, f.holds I d = true) ↔ c.isVirtual = true ∧
      ∃ x id, OpenBelow catalog ctx.store c path x id ∧ x.isVirtual = false ∧
        carries d id = true := by
    rw [holds_staticAdditions hids hspecial hfield hstatics]
    simp only [mem_staticContributors]
    constructor
    · rintro ⟨id, ⟨hvirtual, x, h, hstatic⟩, hcarries⟩
      exact ⟨hvirtual, x, id, h, hstatic, hcarries⟩
    · rintro ⟨hvirtual, x, id, h, hstatic, hcarries⟩
      exact ⟨id, ⟨hvirtual, x, h, hstatic⟩, hcarries⟩
  rw [holds_withAdditions, SelectedBelow, ← hvirtual, ← hstatic]
  simp only [List.mem_append, or_and_right, exists_or]

/-- What an active category selects. -/
theorem query_compileOpen (hactive : c.isActive = true) {id : CategoryId} (hid : c.id = some id)
    (h : (compiler settings catalog translator ctx r).compileOpen c path = .ok x) :
    (x.query = none ↔ c.isVirtual = true ∧ c.rule.conditions = [] ∧
      ¬ ∃ f, RootContributes catalog ctx.store (.of r) c path f) ∧
    ∀ f, x.query = some f → ∀ d, f.holds I d = true ↔
      SelectedItself catalog translator ctx I carries (.of r) c id path d ∨
      SelectedBelow catalog ctx I carries (.of r) c path d := by
  rw [compileOpen_eq_ok, if_neg (by simp [hactive])] at h
  obtain ⟨base, hbase, h⟩ := h
  obtain ⟨hnone, hholds⟩ := query_baseQuery hids hspecial hfield hactive hid hbase
  split at h
  · rename_i hquery
    subst h
    exact ⟨hnone, by simp [hquery]⟩
  · rename_i f hquery
    obtain ⟨folded, hfolded, rfl⟩ := h
    obtain ⟨g, hg, hadded⟩ := query_foldChildren hids hspecial hfield hfolded
    have hsome : (folded.absorb base).query = some g := hg
    refine ⟨?_, fun g' hg' d => ?_⟩
    · rw [← hnone, hsome, hquery]
      simp
    · obtain rfl : g = g' := Option.some.inj (hsome.symm.trans hg')
      rw [hadded, hholds f hquery]

omit hids hspecial hfield in
/-- A disabled category matches nothing, or is no restriction. -/
theorem query_compileOpen_disabled (hactive : c.isActive = false)
    (h : (compiler settings catalog translator ctx r).compileOpen c path = .ok x) :
    x.query = if settings.hidesDisabledIn ctx.store then some (.matchNothing settings.idField)
      else none := by
  rw [compileOpen_eq_ok, hactive, Bool.not_false, Bool.true_and] at h
  split at h
  · subst h
    rw [if_pos ‹_›]
  · obtain ⟨base, hbase, h⟩ := h
    rw [Compiler.baseQuery, if_pos (by simp [hactive])] at hbase
    obtain rfl := pure_eq_ok.1 hbase
    obtain rfl : Compiled.unrestricted = x := h
    rw [if_neg ‹_›]
    rfl

/-- Compiling selects exactly, if the categories that are referred to are compiled so as well. -/
theorem selectsExactly_compile
    (hr : ∀ c path, r c path = (compiler settings catalog translator ctx r).compile c path) :
    SelectsExactly settings catalog translator ctx I carries (.of r) := by
  have hopen : ∀ c id path q, c.id = some id → id ∉ path → Resolution.of r c path = .ok q →
      ∃ y, (compiler settings catalog translator ctx r).compileOpen c (path.insert id) = .ok y ∧
        y.query = q := by
    intro c id path q hid hpath h
    obtain ⟨x, hx, rfl⟩ := Resolution.of_eq_ok.1 h
    rw [hr, compile_eq_ok, hid] at hx
    dsimp only at hx
    rw [if_neg hpath] at hx
    obtain ⟨y, hy, rfl⟩ := hx
    exact ⟨y, hy, rfl⟩
  refine ⟨fun c id path q hid hpath h => ?_, fun c id path f hid hpath h hactive => ?_,
    fun c id path f hid hpath h hactive => ?_⟩
  · obtain ⟨y, hy, rfl⟩ := hopen c id path q hid hpath h
    cases hactive : c.isActive with
    | true => simpa using (query_compileOpen hids hspecial hfield hactive hid hy).1
    | false =>
      rw [query_compileOpen_disabled hactive hy]
      simp
  · obtain ⟨y, hy, hquery⟩ := hopen c id path _ hid hpath h
    rw [query_compileOpen_disabled hactive hy] at hquery
    split at hquery
    · exact (Option.some.inj hquery).symm
    · nomatch hquery
  · obtain ⟨y, hy, hquery⟩ := hopen c id path _ hid hpath h
    exact (query_compileOpen hids hspecial hfield hactive hid hy).2 f hquery

end

end Fresh

/-! ## New workers -/

namespace Worker

/-- What a worker that has not worked yet resolves a category to. -/
def first (settings : Settings) (catalog : Catalog) (translator : Translator) (ctx : Context) :
    Resolution :=
  fun c path => ((resolve catalog translator ctx c path).outcome
    ⟨.ofSettings settings, .empty, []⟩).1.map Compiled.query

section
variable {settings : Settings} {catalog : Catalog} {translator : Translator} {ctx : Context}
  {c : Category} {path : IdSet}

/-- A desk without entries has none after they were looked for. -/
theorem entries_searched_empty {d : Desk} (hlocal : d.worker.cache.entries = ∅)
    (hshared : d.shared = .empty) (key : CacheKey) :
    (searched key path d).worker.cache.entries = ∅ := by
  obtain ⟨-, hsame, hentries⟩ := fromLocal_spec key path d
  obtain ⟨-, -, hcache⟩ := fromShared_spec key path ((fromLocal key path).outcome d).2
  rw [hsame.shared, hshared, sharedQuery?_empty] at hcache
  rw [searched, hcache]
  exact hentries.trans hlocal

/-- Without entries, looking for a category ends as compiling it does. -/
theorem query_cached_empty {w : Work Compiled} {d : Desk} {x : Except Failure (Option Fragment)}
    (hlocal : d.worker.cache.entries = ∅) (hshared : d.shared = .empty)
    (hw : ∀ d' : Desk, d'.worker.settings = d.worker.settings → d'.worker.roots = d.worker.roots →
      d'.worker.cache.entries = ∅ → d'.shared = .empty →
      (w.outcome d').1.map Compiled.query = x) :
    ((cached settings ctx c path w).outcome d).1.map Compiled.query = x := by
  cases hid : storedId? c with
  | none =>
    rw [cached, hid]
    exact hw d rfl rfl hlocal hshared
  | some id =>
    rw [outcome_cached hid, hlocal, hshared, Std.HashMap.getElem?_empty, sharedQuery?_empty]
    generalize keyOf settings ctx id = key
    obtain ⟨hsettings, hroots, hshared'⟩ := searched_spec key path d
    rw [← hw (searched key path d) hsettings hroots (entries_searched_empty hlocal hshared key)
      (hshared'.trans hshared)]
    dsimp only [Option.filter]
    generalize w.outcome (searched key path d) = o
    obtain ⟨y, d₁⟩ := o
    cases y with
    | error e => rfl
    | ok y => exact congrArg Except.ok (query_closed path id y)

end

end Worker

/-- The scope of what one worker resolves for one context. -/
def Scope.ofCatalog (settings : Settings) (translator : Translator) (catalog : Catalog)
    (ctx : Context) : Scope :=
  ⟨settings, translator, [ctx], catalog.entries⟩

section
variable {ctx : Context} {c : Category} {path : IdSet}

/-- Compiling a category that was not found is compiling it anew; nothing is asked of the category
    itself. -/
theorem Epoch.sim_recompile {E : Epoch} (hctx : E.contexts ctx) {w : Worker}
    (hw : w.settings = E.settings) :
    E.simulates.rel (asOnPath.rel path) (w.recompile E.catalog E.translator ctx c path)
      (E.anew ctx c path) := by
  rw [Worker.recompile, hw]
  refine Epoch.sim_compile hctx fun k hk =>
    Epoch.sim_resolveWithin hctx _ (fun hs => ?_) fun k' hk' => ?_
  · obtain ⟨hmem, hstore⟩ := Call.refers_mem hk.refers
    exact hstore ▸ E.known_saved _ hmem hs
  · have hle := (Call.Inside.deeper hk hk').le_size
    omega

theorem map_query_of_related {x y : Except Failure Compiled}
    (h : Related (asOnPath.rel path) x y) : x.map Compiled.query = y.map Compiled.query := by
  match x, y, h with
  | .ok a, .ok b, h => exact congrArg Except.ok h.1
  | .error e, .error _, h => exact congrArg Except.error h

/-- **A worker that has not worked yet resolves a category to what compiling it anew comes to.** -/
theorem Worker.first_eq {settings : Settings} {catalog : Catalog} {translator : Translator}
    (hlegible : (Scope.ofCatalog settings translator catalog ctx).Legible) :
    first settings catalog translator ctx c path =
      Resolution.of (Fresh.compile settings catalog translator ctx) c path := by
  have hcovers : (Scope.ofCatalog settings translator catalog ctx).Covers (.start 1 catalog) :=
    .forget (fun _ hc => hc) rfl
  let E := (Scope.ofCatalog settings translator catalog ctx).epoch hlegible _ hcovers
  have hctx : E.contexts ctx := List.mem_singleton_self ctx
  rw [first, outcome_resolve]
  refine query_cached_empty rfl rfl fun d hsettings hroots hlocal hshared => ?_
  have hsound : E.Sound d := .of_empty hsettings hroots hlocal fun key => by
    rw [hshared]
    exact Std.HashMap.getElem?_empty
  exact map_query_of_related (Epoch.sim_recompile hctx (w := .ofSettings settings) rfl d hsound).2

/-- **A compiled category selects the documents that its definition says**, whatever the category, its
    path and the catalog, if tests of category ids are read as such.  A new worker resolves to what
    is compiled, if keys do not collide and the doubles of translated rules are read back. -/
theorem Worker.selects_exactly {Doc : Type} (settings : Settings) (catalog : Catalog)
    (translator : Translator) (ctx : Context) {I : Interpretation Doc}
    {carries : Doc → CategoryId → Bool} (hids : ReadsIds I settings.categoryField carries)
    (hspecial : translator.registry.get? settings.categoryField = none)
    (hfield : translator.field? settings.categoryField = none) :
    SelectsExactly settings catalog translator ctx I carries
      (.of (Fresh.compile settings catalog translator ctx)) ∧
    ((Scope.ofCatalog settings translator catalog ctx).Legible →
      SelectsExactly settings catalog translator ctx I carries
        (first settings catalog translator ctx)) := by
  have hanew : SelectsExactly settings catalog translator ctx I carries
      (.of (Fresh.compile settings catalog translator ctx)) :=
    Fresh.selectsExactly_compile hids hspecial hfield
      fun c path => Fresh.compile_eq settings catalog translator ctx c path
  refine ⟨hanew, fun hlegible => ?_⟩
  have hfirst : first settings catalog translator ctx =
      .of (Fresh.compile settings catalog translator ctx) :=
    funext fun c => funext fun path => first_eq hlegible
  rw [hfirst]
  exact hanew

end

/-- Documents as fields with values, of which conditions on values are read. -/
def readsFields : Interpretation (List (String × Scalar)) := fun q d =>
  match q with
  | .term field value => d.any fun p => p.1 == field && p.2 == value
  | .terms field values => values.any fun value => d.any fun p => p.1 == field && p.2 == value
  | _ => false

namespace Medium

/-- A virtual category of what is red. -/
def red : Category :=
  { Category.ofPath 3 "Red" [1, 2, 3] with
    isVirtual := true, rule := .ofConditions .all [⟨"color", .equal, .single (.text "red")⟩] }

/-- A virtual category of what has size M, within the one of what is red. -/
def medium : Category :=
  { Category.ofPath 4 "Medium" [1, 2, 4] with
    isVirtual := true
    virtualRoot := some 3
    rule := .ofConditions .all [⟨"size", .equal, .single (.text "M")⟩] }

/-- A static category below the latter. -/
def boots : Category := medium.child 5 "Boots"

def catalog : Catalog := .ofList [red, medium, boots]

/-- Whether a category is among those of a document. -/
def carries (d : List (String × Scalar)) (id : CategoryId) : Bool :=
  d.any fun p => p.1 == "category_ids" && p.2 == .ofWord64 id

/-- What a new worker resolves categories to. -/
def resolve : Resolution := Worker.first .standard catalog Outdated.rules Outdated.ctx

/-- Whether a document is selected by a category. -/
def selects (c : Category) (path : IdSet) (d : List (String × Scalar)) : Bool :=
  (resolve c path).toOption.any fun q => q.any fun f => f.holds readsFields d

theorem readsIds : ReadsIds readsFields "category_ids" carries :=
  ⟨fun _ _ => rfl, fun _ _ => List.any_map⟩

theorem legible : (Scope.ofCatalog .standard Outdated.rules catalog Outdated.ctx).Legible := by
  have hkeys : (Scope.ofCatalog .standard Outdated.rules catalog Outdated.ctx).keys ⊆
      [Outdated.key 3, Outdated.key 4, Outdated.key 5] := by decide
  have hdigests : ([Outdated.key 3, Outdated.key 4, Outdated.key 5].map
      fun k => Digest.sha256Hex k.text).Nodup := by decide +kernel
  refine ⟨fun k hk k' hk' => ?_, fun ctx _ => .of_rules (by decide) fun c hc f hf => ?_⟩
  · exact .of_nodup hdigests (hkeys hk) (hkeys hk')
  · have hmem : c ∈ [red, medium, boots] := hc
    simp only [List.mem_cons, List.not_mem_nil, or_false] at hmem
    rcases hmem with rfl | rfl | rfl
    · obtain rfl : _ = f := Option.some.inj (Except.ok.inj hf)
      exact Fragment.exact_of_doubles rfl
    · obtain rfl : _ = f := Option.some.inj (Except.ok.inj hf)
      exact Fragment.exact_of_doubles rfl
    · nomatch hf

/-- A new worker selects what compiling anew comes to. -/
theorem selects_eq (c : Category) (path : IdSet) (d : List (String × Scalar)) :
    selects c path d = (Resolution.of (Fresh.compile .standard catalog Outdated.rules Outdated.ctx)
      c path).toOption.any fun q => q.any fun f => f.holds readsFields d := by
  rw [selects, resolve, Worker.first_eq legible]

/-- The root is off the path of what is within it. -/
theorem openRoot_red : OpenRoot catalog Outdated.ctx.store medium (.ofList [4]) red 3 where
  named := rfl
  notStoreRoot := by decide
  saved := List.mem_cons_self (a := red) (l := [medium, boots])
  inStore := rfl
  hasId := rfl
  belowTop := by decide
  outside i hi hmem := by
    obtain rfl : i = 4 := by simpa using hmem
    exact absurd hi (by decide)

end Medium

/-- The root contributes: of what has size M only what is red is selected, besides the products of the
    static category below. -/
theorem Worker.selects_exactly_red :
    SelectsExactly .standard Medium.catalog Outdated.rules Outdated.ctx readsFields Medium.carries
        (first .standard Medium.catalog Outdated.rules Outdated.ctx) ∧
      (∃ f, RootContributes Medium.catalog Outdated.ctx.store Medium.resolve Medium.medium
        (.ofList [4]) f ∧ f.holds readsFields [("color", .text "red")] = true) ∧
      Medium.selects Medium.medium ∅ [("color", .text "red"), ("size", .text "M")] = true ∧
      Medium.selects Medium.medium ∅ [("size", .text "M")] = false ∧
      Medium.selects Medium.medium ∅ [("category_ids", .int 5)] = true := by
  refine ⟨(selects_exactly .standard Medium.catalog Outdated.rules Outdated.ctx Medium.readsIds rfl
    rfl).2 Medium.legible, ?_, ?_⟩
  · have hred : Medium.selects Medium.red (.ofList [4]) [("color", .text "red")] = true := by
      rw [Medium.selects_eq]
      decide +kernel
    obtain ⟨q, hq, hred⟩ := (Option.any_eq_true _ _).1 hred
    obtain ⟨f, rfl, hf⟩ := (Option.any_eq_true _ _).1 hred
    exact ⟨f, ⟨Medium.red, 3, Medium.openRoot_red, Epoch.toOption_eq_some.1 hq⟩, hf⟩
  · simp only [Medium.selects_eq]
    decide +kernel

end Merchandising
