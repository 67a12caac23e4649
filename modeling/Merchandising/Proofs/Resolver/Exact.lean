/-
  Compiled queries are read back from their texts.

  * `Fragment.Exact` is a fragment whose doubles are finite and read back;
  * `Fresh.exact_compile`: compiling adds no doubles to those of translated rules and of tests of
    category ids, so that what it makes of exact ones is exact;
  * `StoredQuery.eq_of_decode_encode`: a stored query with an exact fragment is read as it is, if it
    is read at all.
-/
import Merchandising.Proofs.Query.Codec
import Merchandising.Proofs.Resolver.Anew

namespace Merchandising

open Failure (bind_eq_ok pure_eq_ok)

/-- A fragment whose doubles are finite and read back. -/
def Fragment.Exact (f : Fragment) : Prop :=
  ∀ x ∈ f.doubles, x.isFinite = true ∧ Json.ReadsBack (.float x)

namespace Fragment

theorem exact_of_doubles {f : Fragment} (h : f.doubles = []) : f.Exact := by
  simp [Exact, h]

theorem doubles_named (f : Fragment) (name : String) : (f.named name).doubles = f.doubles := by
  cases f
  rfl

theorem Exact.named {f : Fragment} (h : f.Exact) (name : String) : (f.named name).Exact := by
  rw [Exact, doubles_named]
  exact h

theorem exact_clauses {fs : List Fragment} (h : ∀ f ∈ fs, f.Exact) :
    ∀ x ∈ fragmentsDoubles fs, x.isFinite = true ∧ Json.ReadsBack (.float x) := by
  induction fs with
  | nil => simp [fragmentsDoubles]
  | cons f fs ih =>
    rw [List.forall_mem_cons] at h
    rw [fragmentsDoubles, List.forall_mem_append]
    exact ⟨h.1, ih h.2⟩

theorem exact_all {fs : List Fragment} (h : ∀ f ∈ fs, f.Exact) : (all fs).Exact := by
  have hdoubles : (all fs).doubles = fragmentsDoubles fs := by
    simp [all, unnamed, doubles, Query.doubles, fragmentsDoubles]
  rw [Exact, hdoubles]
  exact exact_clauses h

theorem exact_any {fs : List Fragment} (h : ∀ f ∈ fs, f.Exact) : (any fs).Exact := by
  have hdoubles : (any fs).doubles = fragmentsDoubles fs := by
    simp [any, unnamed, doubles, Query.doubles, fragmentsDoubles]
  rw [Exact, hdoubles]
  exact exact_clauses h

end Fragment

/-- The fragments that a translator makes of rules and of tests of category ids are exact. -/
structure Translator.ExactOn (t : Translator) (settings : Settings) (ctx : Context)
    (categories : List Category) : Prop where
  rules : ∀ c ∈ categories, ∀ f, t.rule ctx c.rule = .ok (some f) → f.Exact
  memberships : ∀ (ids : List CategoryId) f, t.condition ctx
    ⟨settings.categoryField, .oneOf, .list (ids.map Scalar.ofWord64)⟩ = .ok f → f.Exact

theorem Scalar.doubles_ofWord64 (n : UInt64) : (Scalar.ofWord64 n).doubles = [] := by
  unfold ofWord64
  generalize Text.fit64? n.toNat = fit
  cases fit <;> rfl

namespace Translator

theorem doubles_oneOf (field : String) {values : List Scalar} (h : ∀ v ∈ values, v.doubles = []) :
    (oneOf field values).doubles = [] := by
  match values with
  | [] => rfl
  | [v] => exact h v (by simp)
  | _ :: _ :: _ => exact List.flatMap_eq_nil_iff.2 h

/-- A test of category ids has no doubles, unless it is a search in full text. -/
theorem doubles_condition {t : Translator} {ctx : Context} {field : String}
    (hfield : t.registry.get? field ≠ some .fulltext) {ids : List CategoryId} {f : Fragment}
    (h : t.condition ctx ⟨field, .oneOf, .list (ids.map Scalar.ofWord64)⟩ = .ok f) :
    f.doubles = [] := by
  have hone : ∀ field, (oneOf field (ids.map Scalar.ofWord64)).doubles = [] := by
    refine fun field => doubles_oneOf field fun v hv => ?_
    obtain ⟨id, -, rfl⟩ := List.mem_map.1 hv
    exact Scalar.doubles_ofWord64 id
  unfold condition at h
  split at h
  · obtain ⟨g, hg, h⟩ := bind_eq_ok.1 h
    obtain rfl := Except.ok.inj hg
    obtain rfl := Except.ok.inj h
    generalize (t.field? field).bind Field.nestedPath = path
    cases path <;> exact hone _
  · obtain rfl := Except.ok.inj h
    rfl
  · obtain rfl := Except.ok.inj h
    exact hone _
  · rename_i isBoolean _
    obtain ⟨g, hg, h⟩ := bind_eq_ok.1 h
    obtain rfl := Except.ok.inj h
    have hg : g.doubles = [] := by
      cases isBoolean
      · obtain rfl := Except.ok.inj hg
        exact hone _
      · obtain rfl := Except.ok.inj hg
        rfl
    show [] ++ (g.doubles ++ []) ++ [] ++ [] = []
    rw [hg]
    rfl
  · -- no age is one of several
    unfold relativeDate at h
    split at h
    · nomatch h
    · split at h <;> nomatch h
  · contradiction

end Translator

/-- Tests of category ids are exact if the ids are not searched for in full text. -/
theorem Translator.ExactOn.of_rules {t : Translator} {settings : Settings} {ctx : Context}
    {categories : List Category} (hfield : t.registry.get? settings.categoryField ≠ some .fulltext)
    (hrules : ∀ c ∈ categories, ∀ f, t.rule ctx c.rule = .ok (some f) → f.Exact) :
    t.ExactOn settings ctx categories :=
  ⟨hrules, fun _ _ h => Fragment.exact_of_doubles (doubles_condition hfield h)⟩

/-- The query of an outcome is exact, if there is one. -/
def Compiled.Exact (r : Compiled) : Prop := ∀ f ∈ r.query, f.Exact

theorem Compiled.exact_none {r : Compiled} (h : r.query = none) : r.Exact := by
  simp [Compiled.Exact, h]

theorem exact_withinRoot {own root : Option Fragment} (ho : ∀ f ∈ own, f.Exact)
    (hr : ∀ f ∈ root, f.Exact) : ∀ f ∈ withinRoot own root, f.Exact := by
  intro f hf
  match own, root with
  | some o, some r =>
    obtain rfl := Option.some.inj hf
    refine Fragment.Exact.named (Fragment.exact_all fun g hg => ?_) _
    rcases List.mem_cons.1 hg with rfl | hg
    · exact ho g rfl
    · obtain rfl := List.mem_singleton.1 hg
      exact hr g rfl
  | some o, none => exact ho f hf
  | none, some r => exact hr f hf

theorem exact_withAdditions {c : Category} {base : Fragment} {additions : List Fragment}
    (hb : base.Exact) (ha : ∀ f ∈ additions, f.Exact) : (withAdditions c base additions).Exact := by
  cases additions with
  | nil => exact hb
  | cons f fs =>
    refine Fragment.Exact.named (Fragment.exact_any fun g hg => ?_) _
    rcases List.mem_cons.1 hg with rfl | hg
    · exact hb
    · exact ha g hg

namespace Fresh

variable {settings : Settings} {catalog : Catalog} {translator : Translator} {ctx : Context}
  {categories : List Category} (ht : translator.ExactOn settings ctx categories)
  {r : Category → IdSet → Except Failure Compiled}
include ht

section
variable (hr : ∀ c ∈ catalog.entries, ∀ path x, r c path = .ok x → x.Exact) {c : Category}
  {path : IdSet} {x : Compiled}

theorem exact_membership {ids : List CategoryId} {f : Fragment}
    (h : (compiler settings catalog translator ctx r).membership ids = .ok f) : f.Exact :=
  ht.memberships ids f h

omit ht in
include hr in
theorem exact_rootQuery
    (h : (compiler settings catalog translator ctx r).rootQuery c path = .ok x) : x.Exact := by
  rw [rootQuery_eq_ok] at h
  split at h
  · subst h
    exact Compiled.exact_none rfl
  · rename_i root hroot
    split at h
    · obtain ⟨y, hy, rfl⟩ := h
      exact hr root (Call.root?_mem hroot).1 path y hy
    · subst h
      exact Compiled.exact_none rfl

include hr in
theorem exact_baseQuery (hc : c ∈ categories)
    (h : (compiler settings catalog translator ctx r).baseQuery c path = .ok x) : x.Exact := by
  unfold Compiler.baseQuery at h
  split at h
  · rw [← pure_eq_ok.1 h]
    exact Compiled.exact_none rfl
  · split at h
    · obtain ⟨own, y, hown, hy, rfl⟩ := virtualQuery_eq_ok.1 h
      refine exact_withinRoot (fun f hf => ?_) (exact_rootQuery hr hy)
      obtain ⟨g, rfl, rfl⟩ := Option.map_eq_some_iff.1 hf
      exact (ht.rules c hc g hown).named _
    · split at h
      · obtain ⟨f, hf, rfl⟩ := staticQuery_eq_ok.1 h
        intro g hg
        obtain rfl := Option.some.inj hg
        exact (exact_membership ht hf).named _
      · rw [← pure_eq_ok.1 h]
        exact Compiled.exact_none rfl

theorem exact_staticAdditions {ids : List CategoryId} {fs : List Fragment}
    (h : (compiler settings catalog translator ctx r).staticAdditions c ids = .ok fs) :
    ∀ f ∈ fs, f.Exact := by
  cases ids with
  | nil =>
    obtain rfl := Except.ok.inj h
    simp
  | cons id ids =>
    obtain ⟨f, hf, h⟩ := bind_eq_ok.1 h
    obtain rfl := Except.ok.inj h
    exact List.forall_mem_singleton.2 ((exact_membership ht hf).named _)

include hr in
theorem exact_foldChildren {base : Fragment} (hb : base.Exact)
    (h : (compiler settings catalog translator ctx r).foldChildren c base path = .ok x) :
    x.Exact := by
  obtain ⟨resolved, statics, hresolved, hstatics, rfl⟩ := foldChildren_eq_ok.1 h
  intro g hg
  obtain rfl := Option.some.inj hg
  refine exact_withAdditions hb fun f hf => ?_
  rcases List.mem_append.1 hf with hf | hf
  · obtain ⟨y, hy, hf⟩ := List.mem_filterMap.1 hf
    obtain ⟨d, hd, hy⟩ := exists_of_forall₂ hresolved hy
    have hd := (List.mem_filter.1 (List.mem_filter.1 hd).1).1
    exact hr d (Call.contributors_mem hd).1 path y hy f hf
  · exact exact_staticAdditions ht hstatics f hf

include hr in
theorem exact_compileOpen (hc : c ∈ categories)
    (h : (compiler settings catalog translator ctx r).compileOpen c path = .ok x) : x.Exact := by
  rw [compileOpen_eq_ok] at h
  split at h
  · subst h
    intro f hf
    obtain rfl := Option.some.inj hf
    exact Fragment.exact_of_doubles rfl
  · obtain ⟨base, hbase, h⟩ := h
    have hb := exact_baseQuery ht hr hc hbase
    split at h
    · subst h
      exact hb
    · rename_i f hf
      obtain ⟨folded, hfolded, rfl⟩ := h
      have hx : folded.Exact := exact_foldChildren ht hr (hb f hf) hfolded
      exact hx

include hr in
theorem exact_compile_of (hc : c ∈ categories)
    (h : (compiler settings catalog translator ctx r).compile c path = .ok x) : x.Exact := by
  rw [compile_eq_ok] at h
  split at h
  · exact exact_compileOpen ht hr hc h
  · split at h
    · subst h
      exact Compiled.exact_none rfl
    · obtain ⟨y, hy, rfl⟩ := h
      have hx : y.Exact := exact_compileOpen ht hr hc hy
      exact hx

end

/-- **Compiling makes exact queries of exact translations.** -/
theorem exact_compile (hcatalog : ∀ c ∈ catalog.entries, c ∈ categories) {c : Category}
    (hc : c ∈ categories) {path : IdSet} {x : Compiled}
    (h : compile settings catalog translator ctx c path = .ok x) : x.Exact := by
  have hresolve : ∀ n, ∀ c ∈ categories, ∀ path x,
      resolve settings catalog translator ctx n c path = .ok x → x.Exact := by
    intro n
    induction n with
    | zero => exact fun _ _ _ _ h => nomatch h
    | succ n ih =>
      exact fun c hc path x h => exact_compile_of ht (fun d hd => ih d (hcatalog d hd)) hc h
  exact hresolve _ c hc path x h

end Fresh

/-- A stored query with an exact fragment is read as it is, if it is read at all. -/
theorem StoredQuery.eq_of_decode_encode {e e' : StoredQuery} (he : ∀ f ∈ e.fragment, f.Exact)
    (h : decode e.encode = .ok e') : e' = e := by
  have hdoubles : ∀ x ∈ e.doubles, x.isFinite = true ∧ Json.ReadsBack (.float x) := by
    intro x hx
    obtain ⟨f, hf, hx⟩ := List.mem_flatMap.1 hx
    exact he f (by simpa using hf) x hx
  rw [decode_encode (each_readsBack (fun x hx => (hdoubles x hx).1) fun x hx => (hdoubles x hx).2)]
    at h
  split at h
  · exact (Except.ok.inj h).symm
  · nomatch h

end Merchandising
