/-
  Compiling anew, step by step.

  * `Fresh.resolve_eq_compile`: the bound on the depth is never reached, and `Fresh.compile_eq`: so
    compiling a category anew is `Compiler.compile` with itself for the categories that it refers to;
  * `Fresh.rootQuery_eq_ok`, `Fresh.foldChildren_eq_ok` and the others say when a step ends well, and
    with which outcome, given how the categories that are referred to are resolved;
  * `Fresh.compile_eq_ok` is the whole of it.
-/
import Merchandising.Proofs.Resolver.Nested

namespace Merchandising

open Failure (bind_eq_ok pure_eq_ok)

/-! ## Depth -/

/-- Programs that end in related ways. -/
def sameOutcome : Correspondence (Except Failure) (Except Failure) where
  rel := Related
  pure h := h
  throw _ := rfl
  bind := by
    intro α β γ δ R S x y f g hxy hfg
    match x, y, hxy with
    | .ok a, .ok b, hab => exact hfg a b hab
    | .error _, .error _, he => exact he

namespace Fresh

section
variable {settings : Settings} {catalog : Catalog} {translator : Translator} {ctx : Context}

/-- What cannot be reached may be resolved in any way. -/
theorem compile_congr {r r' : Category → IdSet → Except Failure Compiled} {c : Category}
    {path : IdSet} (h : ∀ k, Call.Nested catalog ctx.store ⟨c, path⟩ k →
      r k.category k.path = r' k.category k.path) :
    (compiler settings catalog translator ctx r).compile c path =
      (compiler settings catalog translator ctx r').compile c path := by
  refine related_eq.1 (Compiler.rel_compile (K := sameOutcome) (P := .equal) (fun ho => ?_)
    fun _ => trivial)
  refine ⟨rfl, rfl, rfl, rfl, ⟨rfl, rfl⟩, fun d hd => ?_, fun _ => trivial⟩
  exact related_eq.2 (h ⟨d, _⟩ ⟨Call.opens_iff.2 ho, rfl, hd⟩)

theorem resolve_succ (n : Nat) {c : Category} {path : IdSet}
    (h : ∀ k, ¬ Call.Inside catalog ctx.store n ⟨c, path⟩ k) :
    resolve settings catalog translator ctx (n + 1) c path =
      resolve settings catalog translator ctx n c path := by
  induction n generalizing c path with
  | zero => exact absurd (.here _) (h _)
  | succ n ih => exact compile_congr fun k hk => ih fun k' hk' => h k' (.deeper hk hk')

end

variable (settings : Settings) (catalog : Catalog) (translator : Translator) (ctx : Context)

/-- More depth than there are categories makes no difference. -/
theorem resolve_eq_compile (c : Category) (path : IdSet) {n : Nat} (hn : catalog.size + 2 ≤ n) :
    resolve settings catalog translator ctx n c path =
      compile settings catalog translator ctx c path := by
  induction hn with
  | refl => rfl
  | @step n hn ih =>
    refine (resolve_succ n fun k hk => ?_).trans ih
    exact absurd (Nat.le_trans hn hk.le_size) (Nat.not_succ_le_self _)

/-- **Compiling anew is compiling a category with what it refers to compiled anew.** -/
theorem compile_eq (c : Category) (path : IdSet) :
    compile settings catalog translator ctx c path =
      (compiler settings catalog translator ctx
        (compile settings catalog translator ctx)).compile c path :=
  (resolve_eq_compile settings catalog translator ctx c path (Nat.le_succ _)).symm

end Fresh

/-! ## Steps -/

theorem ofExcept_eq {α : Type} (x : Except Failure α) :
    (MonadExcept.ofExcept x : Except Failure α) = x := by
  cases x <;> rfl

theorem mapM_eq_ok {α β : Type} {f : α → Except Failure β} {as : List α} {bs : List β} :
    as.mapM f = .ok bs ↔ List.Forall₂ (fun a b => f a = .ok b) as bs := by
  induction as generalizing bs with
  | nil => simp [pure, Except.pure, eq_comm]
  | cons a as ih =>
    rw [List.mapM_cons, bind_eq_ok, List.forall₂_cons_left_iff]
    constructor
    · rintro ⟨b, hb, h⟩
      obtain ⟨bs', hbs, h⟩ := bind_eq_ok.1 h
      exact ⟨b, bs', hb, ih.1 hbs, (Except.ok.inj h).symm⟩
    · rintro ⟨b, bs', hb, hbs, rfl⟩
      exact ⟨b, hb, bind_eq_ok.2 ⟨bs', ih.2 hbs, rfl⟩⟩

theorem exists_of_forall₂ {α β : Type} {R : α → β → Prop} {as : List α} {bs : List β}
    (h : List.Forall₂ R as bs) {b : β} (hb : b ∈ bs) : ∃ a ∈ as, R a b := by
  induction h with
  | nil => nomatch hb
  | cons hab _ ih =>
    rcases List.mem_cons.1 hb with rfl | hb
    · exact ⟨_, by simp, hab⟩
    · obtain ⟨a, ha, hab⟩ := ih hb
      exact ⟨a, List.mem_cons_of_mem _ ha, hab⟩

namespace Fresh

variable {settings : Settings} {catalog : Catalog} {translator : Translator} {ctx : Context}
  {r : Category → IdSet → Except Failure Compiled} {c : Category} {path : IdSet} {x : Compiled}

/-- A virtual root restricts the query unless the path covers it. -/
theorem rootQuery_eq_ok :
    (compiler settings catalog translator ctx r).rootQuery c path = .ok x ↔
      match root? catalog ctx.store c with
      | none => .unrestricted = x
      | some root =>
        if (Compiled.look path root.path).cut.isEmpty then
          ∃ y, r root path = .ok y ∧ y.absorb (.look path root.path) = x
        else .look path root.path = x := by
  have hroot : (compiler settings catalog translator ctx r).root c =
      .ok (root? catalog ctx.store c) := rfl
  rw [Compiler.rootQuery, hroot]
  cases root? catalog ctx.store c with
  | none => exact pure_eq_ok
  | some root =>
    change (if (Compiled.look path root.path).cut.isEmpty = true then _ else _) = _ ↔ _
    dsimp only
    split
    · simp only [bind_eq_ok, pure_eq_ok]
      rfl
    · exact pure_eq_ok

/-- The query of a virtual category is its rule within its virtual root. -/
theorem virtualQuery_eq_ok :
    (compiler settings catalog translator ctx r).virtualQuery c path = .ok x ↔
      ∃ own y, translator.rule ctx c.rule = .ok own ∧
        (compiler settings catalog translator ctx r).rootQuery c path = .ok y ∧
        { y with query := withinRoot (own.map fun f => f.named c.label) y.query } = x := by
  rw [Compiler.virtualQuery, ofExcept_eq]
  simp only [bind_eq_ok, pure_eq_ok]
  exact ⟨fun ⟨own, ho, y, hy, h⟩ => ⟨own, y, ho, hy, h⟩, fun ⟨own, y, ho, hy, h⟩ => ⟨own, ho, y, hy, h⟩⟩

/-- The query of a static category is a test of its id. -/
theorem staticQuery_eq_ok {id : CategoryId} :
    (compiler settings catalog translator ctx r).staticQuery c id = .ok x ↔
      ∃ f, (compiler settings catalog translator ctx r).membership [id] = .ok f ∧
        { Compiled.unrestricted with query := some (f.named c.label) } = x := by
  rw [Compiler.staticQuery, ofExcept_eq]
  simp only [bind_eq_ok, pure_eq_ok]

/-- The descendants that are not on the path are added, the virtual ones with their queries. -/
theorem foldChildren_eq_ok {base : Fragment} :
    (compiler settings catalog translator ctx r).foldChildren c base path = .ok x ↔
      ∃ resolved statics,
        List.Forall₂ (fun d y => r d path = .ok y)
          (((catalog.contributors ctx.store c).filter fun d => d.id.any fun id => id ∉ path).filter
            Category.isVirtual) resolved ∧
        (compiler settings catalog translator ctx r).staticAdditions c
          ((((catalog.contributors ctx.store c).filter fun d => d.id.any fun id => id ∉ path).filter
            fun d => !d.isVirtual).filterMap Category.id) = .ok statics ∧
        { resolved.foldl Compiled.absorb
            (.look path ((catalog.contributors ctx.store c).filterMap Category.id)) with
          query := some (withAdditions c base (resolved.filterMap Compiled.query ++ statics)) } =
            x := by
  rw [Compiler.foldChildren, ofExcept_eq]
  simp only [bind_eq_ok, pure_eq_ok, mapM_eq_ok]
  exact ⟨fun ⟨resolved, hr, statics, hs, h⟩ => ⟨resolved, statics, hr, hs, h⟩,
    fun ⟨resolved, statics, hr, hs, h⟩ => ⟨resolved, hr, statics, hs, h⟩⟩

/-- A disabled category may show nothing; otherwise descendants are added if there is a query. -/
theorem compileOpen_eq_ok :
    (compiler settings catalog translator ctx r).compileOpen c path = .ok x ↔
      if !c.isActive && settings.hidesDisabledIn ctx.store then
        { Compiled.unrestricted with query := some (.matchNothing settings.idField) } = x
      else ∃ base, (compiler settings catalog translator ctx r).baseQuery c path = .ok base ∧
        match base.query with
        | none => base = x
        | some f => ∃ folded, (compiler settings catalog translator ctx r).foldChildren c f path =
            .ok folded ∧ folded.absorb base = x := by
  rw [Compiler.compileOpen]
  change (if (!c.isActive && settings.hidesDisabledIn ctx.store) = true then _ else _) = _ ↔ _
  by_cases hhide : (!c.isActive && settings.hidesDisabledIn ctx.store) = true
  · rw [if_pos hhide, if_pos hhide]
    exact pure_eq_ok
  · rw [if_neg hhide, if_neg hhide, bind_eq_ok]
    refine exists_congr fun base => and_congr_right fun _ => ?_
    cases base.query with
    | none => exact pure_eq_ok
    | some f =>
      simp only [bind_eq_ok]
      refine exists_congr fun folded => and_congr_right fun _ => ?_
      exact ⟨fun ⟨_, h, _, _, h'⟩ => (pure_eq_ok.1 h).trans (pure_eq_ok.1 h'),
        fun h => ⟨_, rfl, (), rfl, pure_eq_ok.2 h⟩⟩

/-- A category on the path is left out; any other one is compiled with its id on the path. -/
theorem compile_eq_ok :
    (compiler settings catalog translator ctx r).compile c path = .ok x ↔
      match c.id with
      | none => (compiler settings catalog translator ctx r).compileOpen c path = .ok x
      | some id =>
        if id ∈ path then .look path [id] = x
        else ∃ y, (compiler settings catalog translator ctx r).compileOpen c (path.insert id) =
          .ok y ∧ y.absorb (.look path [id]) = x := by
  rw [Compiler.compile]
  cases c.id with
  | none => rfl
  | some id =>
    dsimp only
    split
    · exact pure_eq_ok
    · simp only [bind_eq_ok, pure_eq_ok]

end Fresh

end Merchandising
